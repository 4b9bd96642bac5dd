-- Tables of integers: what is read from a text that holds one row per line. The reader goes
-- through the characters one by one; at the start of a line it has the rows so far and
-- nothing else. A table of one column is read as a single list.
import EnergyGraph.Data.Csv
import EnergyGraph.Proofs.IntegerArrays
import EnergyGraph.Proofs.Numerals
import EnergyGraph.Proofs.Steps

namespace EnergyGraph.Csv

/-! ## Tables as texts -/

/-- The ends of a line. -/
def lineEnds : List (List Char) := [['\n'], ['\r', '\n'], ['\r']]

/-- The cells of a row, joined by commas. -/
def line (cells : List (List Char)) : List Char := [','].intercalate cells

/-- One row per line. The last line need not be ended. -/
inductive IsTable : List (List (List Char)) → List Char → Prop
  | nil : IsTable [] []
  | last (row : List (List Char)) : IsTable [row] (line row)
  | cons (row : List (List Char)) {lineEnd : List Char} (hend : lineEnd ∈ lineEnds)
    {rows : List (List (List Char))} {text : List Char} (hrest : IsTable rows text) :
    IsTable (row :: rows) (line row ++ (lineEnd ++ text))

/-- A cell that stands for itself: something, and nothing that ends a cell or a row. -/
structure IsPlain (cell : List Char) : Prop where
  nonempty : cell ≠ []
  plain : ∀ c ∈ cell, c ≠ ',' ∧ c ≠ '"' ∧ c ≠ '\n' ∧ c ≠ '\r'

/-- A row of cells that stand for themselves. -/
structure IsPlainRow (row : List (List Char)) : Prop where
  nonempty : row ≠ []
  cells : ∀ cell ∈ row, IsPlain cell

/-! ### Line ends -/

theorem mem_line {row : List (List Char)} (h : ∀ cell ∈ row, IsPlain cell) :
    ∀ c ∈ line row, c ≠ '\n' ∧ c ≠ '\r' := by
  unfold line
  induction row with
  | nil => nofun
  | cons cell rest ih =>
    obtain ⟨hcell, hrest⟩ := List.forall_mem_cons.mp h
    have hplain : ∀ c ∈ cell, c ≠ '\n' ∧ c ≠ '\r' := fun c hc => (hcell.plain c hc).2.2
    cases rest with
    | nil => rwa [List.intercalate_singleton]
    | cons next rest =>
      rw [List.intercalate_cons_cons]
      exact List.forall_mem_append.mpr
        ⟨List.forall_mem_append.mpr ⟨hplain, List.forall_mem_singleton.mpr (by decide)⟩, ih hrest⟩

theorem line_ne_nil {row : List (List Char)} (h : IsPlainRow row) : line row ≠ [] := by
  unfold line
  obtain ⟨cell, rest, rfl⟩ := List.exists_cons_of_ne_nil h.nonempty
  have hcell : cell ≠ [] := (h.cells cell List.mem_cons_self).nonempty
  cases rest with
  | nil => rwa [List.intercalate_singleton]
  | cons next rest =>
    rw [List.intercalate_cons_cons, List.append_assoc]
    exact List.append_ne_nil_of_left_ne_nil hcell _

/-- A row that is not empty starts with the characters of its first cell. -/
theorem ne_newline {rows : List (List (List Char))} {text : List Char} (h : IsTable rows text)
    (hrows : ∀ row ∈ rows, IsPlainRow row) (after : List Char) : text ≠ '\n' :: after := by
  have hline : ∀ row ∈ rows, ∀ rest, line row ++ rest ≠ '\n' :: after := by
    intro row hrow rest heq
    obtain ⟨c, tail, hcons⟩ := List.exists_cons_of_ne_nil (line_ne_nil (hrows row hrow))
    rw [hcons, List.cons_append] at heq
    have hc := mem_line (hrows row hrow).cells c (by rw [hcons]; exact List.mem_cons_self)
    exact hc.1 (List.cons.inj heq).1
  cases h with
  | nil => nofun
  | last row =>
    have hlast := hline row List.mem_cons_self []
    rwa [List.append_nil] at hlast
  | cons row _ _ => exact hline row List.mem_cons_self _

theorem unifyLineEnds_append {cs : List Char} (h : ∀ c ∈ cs, c ≠ '\r') (rest : List Char) :
    Text.unifyLineEnds (cs ++ rest) = cs ++ Text.unifyLineEnds rest := by
  induction cs with
  | nil => rfl
  | cons c cs ih =>
    obtain ⟨hc, hcs⟩ := List.forall_mem_cons.mp h
    rw [List.cons_append, Text.unifyLineEnds.eq_3 _ _ (fun _ hreturn _ => hc hreturn) hc, ih hcs]
    rfl

theorem unifyLineEnds_lineEnd {lineEnd : List Char} (h : lineEnd ∈ lineEnds) {rest : List Char}
    (hrest : ∀ after, rest ≠ '\n' :: after) :
    Text.unifyLineEnds (lineEnd ++ rest) = '\n' :: Text.unifyLineEnds rest := by
  simp only [lineEnds, List.mem_cons, List.not_mem_nil, or_false] at h
  rcases h with rfl | rfl | rfl
  · exact unifyLineEnds_append (List.forall_mem_singleton.mpr (by decide)) rest
  · exact Text.unifyLineEnds.eq_1 rest
  · exact Text.unifyLineEnds.eq_2 rest hrest

/-! ## The reader -/

namespace Reading

variable {cell : List Char} {cells : List (List Char)} {done : List (List (List Char))}

/-- The reader in front of a cell. The cells and the rows before it have the latest first. -/
def before (cells : List (List Char)) (done : List (List (List Char))) (atRowStart : Bool) :
    Reading :=
  ⟨.fieldStart, [], cells, done, atRowStart⟩

/-- The reader behind a part of a cell. -/
def behind (cell : List Char) (cells : List (List Char)) (done : List (List (List Char))) :
    Reading :=
  ⟨.inField, cell, cells, done, false⟩

theorem step_comma :
    (behind cell cells done).step ',' = before (cell.reverse :: cells) done false :=
  rfl

theorem step_newline :
    (behind cell cells done).step '\n' = before [] ((cell.reverse :: cells).reverse :: done) true :=
  rfl

theorem foldl_behind {cs : List Char} (h : ∀ c ∈ cs, c ≠ ',' ∧ c ≠ '"' ∧ c ≠ '\n' ∧ c ≠ '\r') :
    cs.foldl step (behind cell cells done) = behind (cs.reverse ++ cell) cells done := by
  induction cs generalizing cell with
  | nil => rfl
  | cons c cs ih =>
    obtain ⟨⟨hcomma, -, hnewline, -⟩, hcs⟩ := List.forall_mem_cons.mp h
    have hstep : (behind cell cells done).step c = behind (c :: cell) cells done := by
      unfold step behind
      dsimp only
      rw [if_neg hnewline, if_neg hcomma]
      rfl
    rw [List.foldl_cons, hstep, ih hcs, List.reverse_cons, List.append_assoc, List.singleton_append]

theorem foldl_cell (h : IsPlain cell) (atRowStart : Bool) :
    cell.foldl step (before cells done atRowStart) = behind cell.reverse cells done := by
  obtain ⟨c, cs, rfl⟩ := List.exists_cons_of_ne_nil h.nonempty
  obtain ⟨⟨hcomma, hquote, hnewline, -⟩, hcs⟩ := List.forall_mem_cons.mp h.plain
  have hstep : (before cells done atRowStart).step c = behind [c] cells done := by
    unfold step before
    dsimp only
    rw [if_neg hnewline, if_neg hquote, if_neg hcomma]
    rfl
  rw [List.foldl_cons, hstep, foldl_behind hcs, List.reverse_cons]

/-- A line leaves the reader behind the last cell of its row. -/
theorem foldl_line {row : List (List Char)} (h : IsPlainRow row) (cells : List (List Char))
    (done : List (List (List Char))) (atRowStart : Bool) :
    ∃ last others, (line row).foldl step (before cells done atRowStart) = behind last others done ∧
      last.reverse :: others = row.reverse ++ cells := by
  obtain ⟨hne, hplain⟩ := h
  unfold line
  induction row generalizing cells atRowStart with
  | nil => exact absurd rfl hne
  | cons cell rest ih =>
    obtain ⟨hcell, hrest⟩ := List.forall_mem_cons.mp hplain
    cases rest with
    | nil =>
      rw [List.intercalate_singleton]
      exact ⟨_, _, foldl_cell hcell atRowStart, by rw [List.reverse_reverse]; rfl⟩
    | cons next rest =>
      obtain ⟨last, others, hfold, hcells⟩ := ih (cell :: cells) false (by simp) hrest
      refine ⟨last, others, ?_, ?_⟩
      · rw [List.intercalate_cons_cons, List.foldl_append, List.foldl_append,
          foldl_cell hcell atRowStart, List.foldl_cons, List.foldl_nil, step_comma,
          List.reverse_reverse, hfold]
      · rw [hcells, List.reverse_cons (a := cell), List.append_assoc, List.singleton_append]

/-- The rows of a reader at the end of the text. -/
def finish (r : Reading) : List (List (List Char)) :=
  (if r.atRowStart then r else r.endRow).rows

theorem finish_table {rows : List (List (List Char))} {text : List Char} (h : IsTable rows text)
    (hrows : ∀ row ∈ rows, IsPlainRow row) (done : List (List (List Char))) :
    finish ((Text.unifyLineEnds text).foldl step (before [] done true)) = rows.reverse ++ done := by
  induction h generalizing done with
  | nil => rfl
  | last row =>
    obtain ⟨hrow, -⟩ := List.forall_mem_cons.mp hrows
    obtain ⟨last, others, hfold, hcells⟩ := foldl_line hrow [] done true
    have hunified := unifyLineEnds_append (fun c hc => (mem_line hrow.cells c hc).2) []
    rw [List.append_nil, Text.unifyLineEnds, List.append_nil] at hunified
    rw [hunified, hfold]
    show (last.reverse :: others).reverse :: done = _
    rw [hcells, List.append_nil, List.reverse_reverse]
    rfl
  | @cons row lineEnd hend rows text hrest ih =>
    obtain ⟨hrow, hothers⟩ := List.forall_mem_cons.mp hrows
    obtain ⟨last, others, hfold, hcells⟩ := foldl_line hrow [] done true
    rw [unifyLineEnds_append fun c hc => (mem_line hrow.cells c hc).2,
      unifyLineEnds_lineEnd hend (ne_newline hrest hothers), List.foldl_append, hfold,
      List.foldl_cons, step_newline, hcells, List.append_nil, List.reverse_reverse, ih hothers _,
      List.reverse_cons, List.append_assoc, List.singleton_append]

end Reading

/-- The rows of a table are those that it was made of. -/
theorem rows_table {rows : List (List (List Char))} {text : String} (h : IsTable rows text.toList)
    (hrows : ∀ row ∈ rows, IsPlainRow row) : Csv.rows text = rows.map (·.map String.ofList) := by
  have hfinish := Reading.finish_table h hrows []
  unfold Csv.rows
  show (Reading.finish (List.foldl _ (Reading.before [] [] true) _)).reverse.map _ = _
  rw [hfinish, List.append_nil, List.reverse_reverse]

/-! ## Integers in cells -/

/-- The characters of an integer. -/
def numeral (k : ℤ) : List Char := (toString k).toList

theorem isPlain_numeral (k : ℤ) : IsPlain (numeral k) := by
  refine ⟨Decimal.toString_ne_nil k, fun c hc => ?_⟩
  rcases Decimal.mem_toString hc with rfl | hdigit
  · decide
  · refine ⟨?_, ?_, ?_, ?_⟩ <;> (rintro rfl; cases hdigit)

theorem isBlank_numeral {k : ℤ} {c : Char} (h : c ∈ numeral k) : Text.isBlank c = false := by
  rcases Decimal.mem_toString h with rfl | hdigit
  · decide
  · exact Decimal.isBlank_digit hdigit

theorem dropWhile_toString (k : ℤ) :
    (toString k).toList.dropWhile Text.isBlank = (toString k).toList :=
  Decimal.dropWhile_isBlank fun _ hc => isBlank_numeral hc

theorem trimmed_toString (k : ℤ) : Text.trimmed (toString k).toList = (toString k).toList :=
  Decimal.trimmed_eq_self fun _ hc => isBlank_numeral hc

theorem length_numeral {k : ℤ} (h : Payload.Fits k) : (numeral k).length ≤ 20 := by
  have hdigits := h.length_toDigits
  rw [numeral, Decimal.toList_toString, List.length_append]
  split
  · simpa using Nat.add_le_add_left hdigits 1
  · simpa using Nat.le_succ_of_le hdigits

theorem takeSign_digits {cs : List Char} (h : Decimal.AllDigits cs) :
    Decimal.takeSign cs = (false, cs) := by
  refine Decimal.takeSign.eq_3 cs ?_ ?_ <;>
    (rintro rest rfl; exact absurd (h _ List.mem_cons_self) (by decide))

theorem takeSign_toString (k : ℤ) :
    Decimal.takeSign (toString k).toList = (decide (k < 0), Nat.toDigits 10 k.natAbs) := by
  rw [Decimal.toList_toString]
  rcases Int.lt_or_le k 0 with hneg | hpos
  · rw [if_pos hneg, decide_eq_true hneg]
    rfl
  · rw [if_neg (not_lt.mpr hpos), decide_eq_false (not_lt.mpr hpos)]
    exact takeSign_digits (Decimal.allDigits_toDigits k.natAbs)

/-- An integer is read as it is written. -/
theorem readInt?_toString {k : ℤ} (h : Payload.Fits k) :
    Decimal.readInt? (toString k) = some k := by
  have hdigits := Decimal.allDigits_toDigits k.natAbs
  have hrun := Decimal.takeDigits_append hdigits Decimal.stops_nil
  rw [List.append_nil, Nat.ofDigitChars_ten_toDigits] at hrun
  have hcount : (Nat.toDigits 10 k.natAbs).length ≠ 0 :=
    List.length_eq_zero_iff.not.mpr Nat.toDigits_ne_nil
  have hlong : ¬ (Nat.toDigits 10 k.natAbs).length > Decimal.longestInteger :=
    not_lt.mpr (h.length_toDigits.trans (by decide))
  unfold Decimal.readInt?
  rw [trimmed_toString, takeSign_toString]
  dsimp only
  rw [hrun, if_neg (by simp [hcount, hlong])]
  exact congrArg some (Decimal.signed_natAbs k)

theorem number_toString {k : ℤ} (h : Payload.Fits k) : number (toString k) = .ok (.int k) := by
  unfold number
  rw [readInt?_toString h]

theorem trim_toString (k : ℤ) : Text.trim (toString k) = toString k := by
  rw [Text.trim, trimmed_toString, String.ofList_toList]

theorem isComment_integers (ks : List ℤ) : isComment (ks.map toString) = false := by
  cases ks with
  | nil => rfl
  | cons k rest =>
    have hmark : ∀ after, (toString k).toList ≠ '#' :: after := fun after heq => by
      have hmem : '#' ∈ (toString k).toList := by rw [heq]; exact List.mem_cons_self
      rcases Decimal.mem_toString hmem with hsign | hdigit
      · cases hsign
      · cases hdigit
    rw [List.map_cons, isComment, dropWhile_toString]
    split
    · rename_i hcons
      exact absurd hcons (hmark _)
    · rfl

/-- A row of integers is read as these integers. -/
theorem numbersOf_integers {ks : List ℤ} (h : ∀ k ∈ ks, Payload.Fits k) :
    numbersOf (ks.map toString) = .ok (ks.map .int) := by
  have hshort : (ks.map toString).any (fun c => c.length > longestCell) = false := by
    refine List.any_eq_false.mpr (List.forall_mem_map.mpr fun k hk => ?_)
    have hlength : (toString k).length ≤ 20 := length_numeral (h k hk)
    simp only [longestCell, gt_iff_lt, decide_eq_true_eq, not_lt]
    omega
  have hfilled : (ks.map toString).filter (fun c => Text.trim c != "") = ks.map toString := by
    refine List.filter_eq_self.mpr (List.forall_mem_map.mpr fun k _ => ?_)
    rw [trim_toString, bne_iff_ne]
    intro hempty
    exact (isPlain_numeral k).nonempty (congrArg String.toList hempty)
  have hnumbers : (ks.map toString).mapM number = .ok (ks.map .int) :=
    mapM_map_ok fun k hk => number_toString (h k hk)
  unfold numbersOf
  dsimp only
  rw [hshort, if_neg Bool.false_ne_true, hfilled, isComment_integers, if_neg Bool.false_ne_true,
    hnumbers]

/-! ## Tables of integers -/

/-- The characters of the cells of rows of integers. -/
def numerals (rows : List (List ℤ)) : List (List (List Char)) := rows.map (·.map numeral)

/-- There are rows, and all of them have a single integer. -/
def IsColumn (rows : List (List ℤ)) : Prop := rows ≠ [] ∧ ∀ row ∈ rows, row.length = 1

instance (rows : List (List ℤ)) : Decidable (IsColumn rows) :=
  inferInstanceAs (Decidable (rows ≠ [] ∧ ∀ row ∈ rows, row.length = 1))

/-- The integers of a column in one list; the rows of any other table as lists of their own. -/
def tableItems (rows : List (List ℤ)) : List Value :=
  if IsColumn rows then rows.flatten.map .int else rows.map .ints

section

variable {rows : List (List ℤ)} {text : String}

theorem mapM_numbersOf (h : IsTable (numerals rows) text.toList) (hne : ∀ row ∈ rows, row ≠ [])
    (hfits : ∀ row ∈ rows, ∀ k ∈ row, Payload.Fits k) :
    (Csv.rows text).mapM numbersOf = .ok (rows.map (·.map .int)) := by
  have hplain : ∀ row ∈ numerals rows, IsPlainRow row := List.forall_mem_map.mpr fun row hrow =>
    ⟨by simpa using hne row hrow, List.forall_mem_map.mpr fun k _ => isPlain_numeral k⟩
  have htexts : ∀ row : List ℤ, (row.map numeral).map String.ofList = row.map toString := by
    intro row
    rw [List.map_map]
    exact List.map_congr_left fun k _ => String.ofList_toList
  rw [rows_table h hplain, numerals, List.map_map]
  refine mapM_map_ok fun row hrow => ?_
  rw [Function.comp, htexts]
  exact numbersOf_integers (hfits row hrow)

/-- A table of integers is read as its rows, or as the single list of its column. -/
theorem read_table (h : IsTable (numerals rows) text.toList) (hne : ∀ row ∈ rows, row ≠ [])
    (hfits : ∀ row ∈ rows, ∀ k ∈ row, Payload.Fits k) :
    read text = Payload.ofValue (.list (tableItems rows)) := by
  have hfilled : (rows.map (·.map Value.int)).filter (fun row => !row.isEmpty) =
      rows.map (·.map .int) := by
    refine List.filter_eq_self.mpr (List.forall_mem_map.mpr fun row hrow => ?_)
    simpa using hne row hrow
  have hcolumn : (!(rows.map (·.map Value.int)).isEmpty &&
      (rows.map (·.map Value.int)).all fun row => row.length == 1) = decide (IsColumn rows) := by
    rw [Bool.eq_iff_iff, decide_eq_true_iff]
    simp [IsColumn]
  unfold read
  rw [mapM_numbersOf h hne hfits, ok_bind, hfilled]
  dsimp only
  rw [hcolumn, List.map_map, ← List.map_flatten]
  simp only [decide_eq_true_eq]
  rfl

end

end EnergyGraph.Csv
