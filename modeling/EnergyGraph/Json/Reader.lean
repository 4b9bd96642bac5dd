-- Reading JSON text. Beyond the standard, `NaN`, `Infinity` and `-Infinity` are
-- numbers. A number with a point or an exponent is a double, any other number
-- an integer. Of members with one name the last value counts, at the place of
-- the first.
import EnergyGraph.Decimal.Reading
import EnergyGraph.Value

namespace EnergyGraph.Json

/-- What follows in the text once a part of it has been read: shorter than what was there. -/
abbrev Rest (cs : List Char) := { rest : List Char // rest.length < cs.length }

def isSpace (c : Char) : Bool := c == ' ' || c == '\t' || c == '\n' || c == '\r'

def skipSpaces (cs : List Char) : List Char := cs.dropWhile isSpace

theorem length_skipSpaces_le (cs : List Char) : (skipSpaces cs).length ≤ cs.length :=
  (List.dropWhile_suffix isSpace).length_le

/-! ## Strings -/

def hexValue? (c : Char) : Option Nat :=
  if '0' ≤ c ∧ c ≤ '9' then some (c.toNat - 48)
  else if 'a' ≤ c ∧ c ≤ 'f' then some (c.toNat - 87)
  else if 'A' ≤ c ∧ c ≤ 'F' then some (c.toNat - 55)
  else none

/-- Four hexadecimal digits and what follows. -/
def takeUnit? : List Char → Option (Nat × List Char)
  | a :: b :: c :: d :: rest =>
    match hexValue? a, hexValue? b, hexValue? c, hexValue? d with
    | some a, some b, some c, some d => some (((a * 16 + b) * 16 + c) * 16 + d, rest)
    | _, _, _, _ => none
  | _ => none

/-- The second half of a surrogate pair, after its own escape mark. -/
def takeLowUnit? : List Char → Option (Nat × List Char)
  | '\\' :: 'u' :: cs => (takeUnit? cs).filter fun (n, _) => 0xDC00 ≤ n && n < 0xE000
  | _ => none

/-- A character after `\u`, of one unit or of a surrogate pair. A surrogate that
stands alone is no character and reads as the replacement character. -/
def takeEscaped? (cs : List Char) : Option (Char × List Char) :=
  match takeUnit? cs with
  | none => none
  | some (unit, rest) =>
    if 0xD800 ≤ unit ∧ unit < 0xDC00 then
      match takeLowUnit? rest with
      | some (low, tail) =>
        some (Char.ofNat (0x10000 + (unit - 0xD800) * 0x400 + (low - 0xDC00)), tail)
      | none => some ('\uFFFD', rest)
    else if 0xDC00 ≤ unit ∧ unit < 0xE000 then some ('\uFFFD', rest)
    else some (Char.ofNat unit, rest)

theorem takeUnit?_length {cs rest : List Char} {n : Nat} (h : takeUnit? cs = some (n, rest)) :
    rest.length < cs.length := by
  unfold takeUnit? at h
  repeat' split at h
  all_goals simp_all
  omega

theorem takeLowUnit?_length {cs rest : List Char} {n : Nat} (h : takeLowUnit? cs = some (n, rest)) :
    rest.length < cs.length := by
  unfold takeLowUnit? at h
  split at h
  · have := takeUnit?_length (Option.filter_eq_some_iff.1 h).1
    simp; omega
  · simp at h

theorem takeEscaped?_length {cs rest : List Char} {c : Char}
    (h : takeEscaped? cs = some (c, rest)) : rest.length < cs.length := by
  unfold takeEscaped? at h
  split at h
  · simp at h
  · rename_i unit tail hu
    have hl := takeUnit?_length hu
    split at h
    · split at h
      · rename_i low tail2 h2
        have := takeLowUnit?_length h2
        simp at h; obtain ⟨_, rfl⟩ := h; omega
      · simp at h; obtain ⟨_, rfl⟩ := h; exact hl
    · split at h <;> (simp at h; obtain ⟨_, rfl⟩ := h; exact hl)

/-- The characters up to the closing quote, and what follows it. -/
def takeString? (cs : List Char) : Option (List Char × Rest cs) :=
  match cs with
  | [] => none
  | '"' :: rest => some ([], ⟨rest, by simp⟩)
  | '\\' :: c :: rest =>
    if c = 'u' then
      match h : takeEscaped? rest with
      | some (ch, rest2) =>
        have := takeEscaped?_length h
        (takeString? rest2).map fun (s, r) => (ch :: s, ⟨r.1, by have := r.2; simp; omega⟩)
      | none => none
    else
      let plain? : Option Char :=
        match c with
        | '"' => some '"'
        | '\\' => some '\\'
        | '/' => some '/'
        | 'b' => some '\x08'
        | 'f' => some '\x0c'
        | 'n' => some '\n'
        | 'r' => some '\r'
        | 't' => some '\t'
        | _ => none
      match plain? with
      | some ch => (takeString? rest).map fun (s, r) => (ch :: s, ⟨r.1, by have := r.2; simp; omega⟩)
      | none => none
  | c :: rest =>
    if c.toNat < 32 then none
    else (takeString? rest).map fun (s, r) => (c :: s, ⟨r.1, by have := r.2; simp; omega⟩)
termination_by cs.length

/-! ## Numbers -/

/-- Digits of ASCII with their value, their count and what follows. -/
def takeAscii (value count : Nat) : List Char → Nat × Nat × List Char
  | [] => (value, count, [])
  | c :: rest =>
    if c.isDigit then takeAscii (value * 10 + (c.toNat - 48)) (count + 1) rest
    else (value, count, c :: rest)

/-- An exponent, if a whole one is there. -/
def takeExponent (cs : List Char) : Option Int × List Char :=
  match cs with
  | c :: rest =>
    if c = 'e' ∨ c = 'E' then
      let (negative, body) := Decimal.takeSign rest
      let (value, count, tail) := takeAscii 0 0 body
      if count = 0 then (none, cs) else (some (if negative then -(value : Int) else value), tail)
    else (none, cs)
  | [] => (none, [])

/-- Why a text is not JSON, or is not read though it is. -/
inductive Flaw where
  /-- A value is missing; so many characters of the text were left. -/
  | noValue (left : Nat)
  | malformed
  /-- An integer has too many digits. -/
  | longInteger
deriving DecidableEq, Inhabited

/-- The place of a missing value, counted from the start of the text. -/
def Flaw.place? (f : Flaw) (s : String) : Option Nat :=
  match f with
  | .noValue left => some (s.length - left)
  | .malformed | .longInteger => none

/-- A minus sign, if there is one, and what follows. -/
def takeMinus : List Char → Bool × List Char
  | '-' :: rest => (true, rest)
  | cs => (false, cs)

/-- The digits of a whole part, which does not start with a zero unless it is zero. -/
def takeWhole : List Char → Nat × Nat × List Char
  | '0' :: rest => (0, 1, rest)
  | cs => takeAscii 0 0 cs

/-- A point and the digits after it, if there are some. -/
def takeFraction : List Char → Nat × Nat × List Char
  | '.' :: rest =>
    let (value, count, tail) := takeAscii 0 0 rest
    if count = 0 then (0, 0, '.' :: rest) else (value, count, tail)
  | cs => (0, 0, cs)

/-- A number, which is an integer unless it has a fraction or an exponent. -/
def takeNumber (cs : List Char) : Except Flaw (Value × List Char) :=
  let (negative, body) := takeMinus cs
  let (whole, count, afterWhole) := takeWhole body
  if count = 0 then .error (.noValue cs.length)
  else
    let (fraction, places, afterFraction) := takeFraction afterWhole
    let (exponent?, tail) := takeExponent afterFraction
    if places = 0 ∧ exponent?.isNone then
      if count > Decimal.longestInteger then .error .longInteger
      else .ok (.int (if negative then -(whole : Int) else whole), tail)
    else
      let digits := whole * Nat.pow 10 places + fraction
      let x := Decimal.nearest digits (exponent?.getD 0 - places)
      .ok (.float (if negative then -x else x), tail)

/-- The words that stand for a value. -/
def words : List (String × Value) :=
  [("null", .null), ("true", .bool true), ("false", .bool false), ("NaN", .float (0.0 / 0.0)),
   ("Infinity", .float (1.0 / 0.0)), ("-Infinity", .float (-(1.0 / 0.0)))]

/-- The text without a word at its front. -/
def dropWord? (word cs : List Char) : Option (List Char) :=
  if word.isPrefixOf cs then some (cs.drop word.length) else none

def takeScalar (cs : List Char) : Except Flaw (Value × List Char) :=
  match words.findSome? fun (w, v) => (dropWord? w.toList cs).map fun rest => (v, rest) with
  | some found => .ok found
  | none => takeNumber cs

/-! ## Values -/

mutual

/-- A value, blanks before it allowed. -/
def takeValue (cs : List Char) : Except Flaw (Value × Rest cs) :=
  match h : skipSpaces cs with
  | '[' :: rest =>
    have hl : rest.length < cs.length := by
      have := length_skipSpaces_le cs; rw [h] at this; simp at this; omega
    match h2 : skipSpaces rest with
    | ']' :: tail => .ok (.list [], ⟨tail, by
        have := length_skipSpaces_le rest; rw [h2] at this; simp at this; omega⟩)
    | _ => (takeItems rest []).map fun (items, r) => (.list items, ⟨r.1, by have := r.2; omega⟩)
  | '\x7b' :: rest =>
    have hl : rest.length < cs.length := by
      have := length_skipSpaces_le cs; rw [h] at this; simp at this; omega
    match h2 : skipSpaces rest with
    | '\x7d' :: tail => .ok (.object [], ⟨tail, by
        have := length_skipSpaces_le rest; rw [h2] at this; simp at this; omega⟩)
    | _ => (takeMembers rest []).map fun (ms, r) => (.object ms, ⟨r.1, by have := r.2; omega⟩)
  | '"' :: rest =>
    have hl : rest.length < cs.length := by
      have := length_skipSpaces_le cs; rw [h] at this; simp at this; omega
    match takeString? rest with
    | some (s, r) => .ok (.text (String.ofList s), ⟨r.1, by have := r.2; omega⟩)
    | none => .error .malformed
  | body =>
    match takeScalar body with
    | .ok (v, rest) =>
      if hr : rest.length < cs.length then .ok (v, ⟨rest, hr⟩) else .error .malformed
    | .error flaw => .error flaw
termination_by (cs.length, 1)

/-- Items up to the closing bracket, after those already read, the latest first. -/
def takeItems (cs : List Char) (before : List Value) : Except Flaw (List Value × Rest cs) :=
  match takeValue cs with
  | .error e => .error e
  | .ok (v, r) =>
    have hr := r.2
    match h : skipSpaces r.1 with
    | ',' :: rest =>
      have hl : rest.length < cs.length := by
        have := length_skipSpaces_le r.1; rw [h] at this; simp at this; omega
      (takeItems rest (v :: before)).map fun (items, r2) =>
        (items, ⟨r2.1, by have := r2.2; omega⟩)
    | ']' :: rest => .ok ((v :: before).reverse, ⟨rest, by
        have := length_skipSpaces_le r.1; rw [h] at this; simp at this; omega⟩)
    | _ => .error .malformed
termination_by (cs.length, 2)

/-- Members up to the closing brace. -/
def takeMembers (cs : List Char) (before : Object) : Except Flaw (Object × Rest cs) :=
  match h : skipSpaces cs with
  | '"' :: body =>
    have hb : body.length < cs.length := by
      have := length_skipSpaces_le cs; rw [h] at this; simp at this; omega
    match takeString? body with
    | none => .error .malformed
    | some (name, r) =>
      have hr := r.2
      match h2 : skipSpaces r.1 with
      | ':' :: afterColon =>
        have hc : afterColon.length < cs.length := by
          have := length_skipSpaces_le r.1; rw [h2] at this; simp at this; omega
        match takeValue afterColon with
        | .error e => .error e
        | .ok (v, r2) =>
          have hr2 := r2.2
          let members := before.set (String.ofList name) v
          match h3 : skipSpaces r2.1 with
          | ',' :: rest =>
            have hl : rest.length < cs.length := by
              have := length_skipSpaces_le r2.1; rw [h3] at this; simp at this; omega
            (takeMembers rest members).map fun (ms, r3) =>
              (ms, ⟨r3.1, by have := r3.2; omega⟩)
          | '\x7d' :: rest => .ok (members, ⟨rest, by
              have := length_skipSpaces_le r2.1; rw [h3] at this; simp at this; omega⟩)
          | _ => .error .malformed
      | _ => .error .malformed
  | _ => .error .malformed
termination_by (cs.length, 2)

end

/-- The value that a whole text holds. -/
def read (s : String) : Except Flaw Value := do
  if s.toList.head? = some '\uFEFF' then .error .malformed
  else
    let (v, r) ← takeValue s.toList
    if skipSpaces r.1 = [] then .ok v else .error .malformed

def read? (s : String) : Option Value := (read s).toOption

end EnergyGraph.Json
