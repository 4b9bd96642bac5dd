-- The laws of steps that fail at once, one by one and in lists: when they come to a result,
-- when they fail, and what all of their errors have in common. They are stated for any kind of
-- error, since a step fails with a mistake, with a refusal or with either. Lists side by side
-- and tables by name come first.
import Mathlib.Data.List.Forall2

namespace EnergyGraph

/-! ## Lists side by side -/

theorem map_eq_of_forall₂ {α β γ : Type} {f : α → γ} {g : β → γ} {xs : List α} {ys : List β}
    (h : List.Forall₂ (fun x y => g y = f x) xs ys) : ys.map g = xs.map f := by
  induction h with
  | nil => rfl
  | cons hxy _ ih => rw [List.map_cons, List.map_cons, hxy, ih]

theorem exists_of_mem_right {α β : Type} {R : α → β → Prop} {xs : List α} {ys : List β}
    (h : List.Forall₂ R xs ys) {y : β} (hy : y ∈ ys) : ∃ x ∈ xs, R x y := by
  induction h with
  | nil => cases hy
  | @cons x z xs ys hxz _ ih =>
    rcases List.mem_cons.mp hy with rfl | hy
    · exact ⟨x, List.mem_cons_self, hxz⟩
    · obtain ⟨w, hw, hwy⟩ := ih hy
      exact ⟨w, List.mem_cons_of_mem x hw, hwy⟩

theorem exists_of_mem_left {α β : Type} {R : α → β → Prop} {xs : List α} {ys : List β}
    (h : List.Forall₂ R xs ys) {x : α} (hx : x ∈ xs) : ∃ y ∈ ys, R x y :=
  exists_of_mem_right (R := flip R) h.flip hx

theorem forall₂_comp {α β γ : Type} {R : α → β → Prop} {S : β → γ → Prop} {T : α → γ → Prop}
    {xs : List α} {ys : List β} {zs : List γ} (h : List.Forall₂ R xs ys)
    (h' : List.Forall₂ S ys zs) (hcomp : ∀ x y z, R x y → S y z → T x z) :
    List.Forall₂ T xs zs := by
  induction h generalizing zs with
  | nil =>
    cases h'
    exact .nil
  | cons hxy _ ih =>
    cases h' with
    | cons hyz hrest => exact .cons (hcomp _ _ _ hxy hyz) (ih hrest)

/-! ## Tables by name -/

section

variable {β : Type} {table : List (String × β)} {key : String}

theorem lookup_cons_of_ne {other : String} (h : key ≠ other) (b : β) :
    ((other, b) :: table).lookup key = table.lookup key := by
  rw [List.lookup_cons, beq_false_of_ne h]

theorem lookup_of_mem (h : (table.map (·.1)).Nodup) {b : β} (hmem : (key, b) ∈ table) :
    table.lookup key = some b := by
  induction table with
  | nil => cases hmem
  | cons entry rest ih =>
    obtain ⟨hfirst, hrest⟩ := List.nodup_cons.mp h
    rw [List.lookup_cons]
    rcases List.mem_cons.mp hmem with rfl | hmem
    · rw [beq_self_eq_true]
    · have hne : key ≠ entry.1 := by
        rintro rfl
        exact hfirst (List.mem_map.mpr ⟨_, hmem, rfl⟩)
      rw [beq_false_of_ne hne]
      exact ih hrest hmem

theorem mem_of_lookup {b : β} (h : table.lookup key = some b) : (key, b) ∈ table := by
  obtain ⟨before, after, rfl, -⟩ := List.lookup_eq_some_iff.mp h
  simp

theorem lookup_eq_none_iff : table.lookup key = none ↔ key ∉ table.map Prod.fst := by
  rw [List.lookup_eq_none_iff, List.mem_map, not_exists]
  refine forall_congr' fun entry => ?_
  rw [not_and, bne_iff_ne, ne_comm]

end

/-! ## Loops over alike steps -/

section

variable {m : Type → Type} [Monad m] {α β : Type} {xs : List α}

theorem foldlM_congr {f g : β → α → m β} (h : ∀ x ∈ xs, ∀ b, f b x = g b x) (b : β) :
    xs.foldlM f b = xs.foldlM g b := by
  induction xs generalizing b with
  | nil => rfl
  | cons x rest ih =>
    rw [List.foldlM_cons, List.foldlM_cons, h x List.mem_cons_self]
    exact congrArg _ (funext fun b => ih (fun x hx => h x (List.mem_cons_of_mem _ hx)) b)

variable [LawfulMonad m]

theorem mapM_congr {f g : α → m β} (h : ∀ x ∈ xs, f x = g x) : xs.mapM f = xs.mapM g := by
  induction xs with
  | nil => rfl
  | cons x rest ih =>
    rw [List.mapM_cons, List.mapM_cons, h x List.mem_cons_self,
      ih fun x hx => h x (List.mem_cons_of_mem _ hx)]

/-- A traversal of items that were moved is one of the items where they were. -/
theorem filterMapM_map {γ : Type} {move : α → γ} {f : γ → m (Option β)} {g : α → m (Option β)}
    (h : ∀ x ∈ xs, f (move x) = g x) : (xs.map move).filterMapM f = xs.filterMapM g := by
  induction xs with
  | nil => rfl
  | cons x rest ih =>
    rw [List.map_cons, List.filterMapM_cons, List.filterMapM_cons, h x List.mem_cons_self,
      ih fun x hx => h x (List.mem_cons_of_mem _ hx)]

theorem filterMapM_congr {f g : α → m (Option β)} (h : ∀ x ∈ xs, f x = g x) :
    xs.filterMapM f = xs.filterMapM g := by
  have hmap : (xs.map id).filterMapM f = xs.filterMapM g := filterMapM_map h
  rwa [List.map_id] at hmap

end

/-! ## Steps that fail at once -/

theorem ok_bind {ε α β : Type} (a : α) (f : α → Except ε β) : (Except.ok a >>= f) = f a := rfl

theorem bind_of_ok {ε α β : Type} {x : Except ε α} {a : α} {f : α → Except ε β} {e : ε}
    (h : x = .ok a) : (x >>= f) = .error e ↔ f a = .error e := by
  rw [h]
  rfl

theorem bind_eq_ok {ε α β : Type} {x : Except ε α} {f : α → Except ε β} {b : β} :
    x >>= f = .ok b ↔ ∃ a, x = .ok a ∧ f a = .ok b := by
  cases x with
  | error e => simp [bind, Except.bind]
  | ok a => simp [bind, Except.bind]

theorem exists_eq_ok {ε α : Type} {x : Except ε α} (h : x.isOk = true) : ∃ a, x = .ok a := by
  cases x with
  | error e => cases h
  | ok a => exact ⟨a, rfl⟩

theorem mapError_eq_ok {ε δ α : Type} {x : Except ε α} {f : ε → δ} {a : α} :
    x.mapError f = .ok a ↔ x = .ok a := by
  cases x <;> simp [Except.mapError]

/-- A list is gone through without a failure when each of its items is. -/
theorem mapM_eq_ok {ε α β : Type} {f : α → Except ε β} {xs : List α} {ys : List β} :
    xs.mapM f = .ok ys ↔ List.Forall₂ (fun x y => f x = .ok y) xs ys := by
  induction xs generalizing ys with
  | nil => cases ys <;> simp [pure, Except.pure]
  | cons x xs ih =>
    rw [List.mapM_cons, bind_eq_ok]
    constructor
    · rintro ⟨y, hy, h⟩
      obtain ⟨rest, hrest, h⟩ := bind_eq_ok.mp h
      cases h
      exact .cons hy (ih.mp hrest)
    · intro h
      cases h with
      | @cons _ y _ rest hy hrest =>
        refine ⟨y, hy, ?_⟩
        rw [ih.mpr hrest]
        rfl

theorem mapM_total {ε α β : Type} {f : α → Except ε β} {xs : List α}
    (h : ∀ x ∈ xs, ∃ y, f x = .ok y) : ∃ ys, xs.mapM f = .ok ys := by
  induction xs with
  | nil => exact ⟨[], rfl⟩
  | cons x rest ih =>
    obtain ⟨y, hy⟩ := h x List.mem_cons_self
    obtain ⟨ys, hys⟩ := ih fun z hz => h z (List.mem_cons_of_mem x hz)
    exact ⟨y :: ys, by rw [List.mapM_cons, hy, hys]; rfl⟩

/-- Items in a form are read one by one. -/
theorem mapM_map_ok {β γ δ ε : Type} {f : γ → Except ε δ} {g : β → γ} {h : β → δ} {xs : List β}
    (hf : ∀ x ∈ xs, f (g x) = .ok (h x)) : (xs.map g).mapM f = .ok (xs.map h) := by
  refine mapM_eq_ok.mpr (List.forall₂_map_left_iff.mpr (List.forall₂_map_right_iff.mpr ?_))
  exact List.forall₂_same.mpr hf

/-- Items that were put into a form are read out of it again. -/
theorem mapM_map_self {β γ ε : Type} {f : γ → Except ε β} {g : β → γ} {xs : List β}
    (hf : ∀ x ∈ xs, f (g x) = .ok x) : (xs.map g).mapM f = .ok xs := by
  have hmapM : (xs.map g).mapM f = .ok (xs.map id) := mapM_map_ok hf
  rwa [List.map_id] at hmapM

/-- Making all values first and taking them in then is the same as taking in each at once. -/
theorem foldl_mapM {ι β σ ε : Type} {f : ι → Except ε β} {step : σ → β → σ} (xs : List ι)
    (acc : σ) :
    (xs.mapM f).map (·.foldl step acc) =
      xs.foldlM (fun acc x => do .ok (step acc (← f x))) acc := by
  induction xs generalizing acc with
  | nil => rfl
  | cons x xs ih =>
    rw [List.mapM_cons, List.foldlM_cons]
    cases hx : f x with
    | error err => rfl
    | ok y =>
      have hrest := ih (step acc y)
      cases hxs : xs.mapM f with
      | error err =>
        rw [hxs] at hrest
        exact hrest
      | ok ys =>
        rw [hxs] at hrest
        exact hrest

theorem map_eq_ok {ε α β : Type} {x : Except ε α} {f : α → β} {b : β} :
    x.map f = .ok b ↔ ∃ a, x = .ok a ∧ f a = b := by
  cases x <;> simp [Except.map]

theorem map_eq_error {ε α β : Type} {x : Except ε α} {f : α → β} {e : ε} :
    x.map f = .error e ↔ x = .error e := by
  cases x <;> simp [Except.map]

theorem bind_eq_error {ε α β : Type} {x : Except ε α} {f : α → Except ε β} {e : ε} :
    x >>= f = .error e ↔ x = .error e ∨ ∃ a, x = .ok a ∧ f a = .error e := by
  cases x with
  | error e => simp [bind, Except.bind]
  | ok a => simp [bind, Except.bind]

/-- A list fails by one of its items, those before it being fine. -/
theorem mapM_eq_error {ε α β : Type} {f : α → Except ε β} {xs : List α} {e : ε} :
    xs.mapM f = .error e ↔ ∃ before x after, xs = before ++ x :: after ∧
      (∀ y ∈ before, ∃ z, f y = .ok z) ∧ f x = .error e := by
  induction xs with
  | nil => simp [pure, Except.pure]
  | cons x rest ih =>
    rw [List.mapM_cons, bind_eq_error]
    constructor
    · rintro (h | ⟨z, hz, h⟩)
      · exact ⟨[], x, rest, rfl, fun _ hy => (nomatch hy), h⟩
      · rcases bind_eq_error.mp h with h | ⟨zs, -, h⟩
        · obtain ⟨before, y, after, rfl, hbefore, hy⟩ := ih.mp h
          exact ⟨x :: before, y, after, rfl, List.forall_mem_cons.mpr ⟨⟨z, hz⟩, hbefore⟩, hy⟩
        · cases h
    · rintro ⟨before, y, after, h, hbefore, hy⟩
      cases before with
      | nil =>
        cases h
        exact Or.inl hy
      | cons x before =>
        cases h
        obtain ⟨⟨z, hz⟩, hbefore⟩ := List.forall_mem_cons.mp hbefore
        have hrest := ih.mpr ⟨before, y, after, rfl, hbefore, hy⟩
        exact Or.inr ⟨z, hz, bind_eq_error.mpr (Or.inl hrest)⟩

/-- There is a cause in one of several items, and those before it are read. -/
def Interrupted {α β ε ρ : Type} (read : α → Except ε β) (cause : α → ρ → Prop) (xs : List α)
    (r : ρ) : Prop :=
  ∃ before x after, xs = before ++ x :: after ∧ (∀ y ∈ before, ∃ z, read y = .ok z) ∧ cause x r

section

variable {α β γ ε ρ : Type} {read : α → Except ε β} {cause : α → ρ → Prop} {x : α} {xs : List α}
  {r : ρ}

theorem not_interrupted_nil : ¬ Interrupted read cause [] r := by simp [Interrupted]

theorem interrupted_cons : Interrupted read cause (x :: xs) r ↔
    cause x r ∨ (∃ z, read x = .ok z) ∧ Interrupted read cause xs r := by
  constructor
  · rintro ⟨before, y, after, h, hbefore, hy⟩
    cases before with
    | nil =>
      cases h
      exact Or.inl hy
    | cons z before =>
      cases h
      obtain ⟨hz, hbefore⟩ := List.forall_mem_cons.mp hbefore
      exact Or.inr ⟨hz, before, y, after, rfl, hbefore, hy⟩
  · rintro (h | ⟨hx, before, y, after, rfl, hbefore, hy⟩)
    · exact ⟨[], x, xs, rfl, List.forall_mem_nil _, h⟩
    · exact ⟨x :: before, y, after, rfl, List.forall_mem_cons.mpr ⟨hx, hbefore⟩, hy⟩

theorem interrupted_singleton : Interrupted read cause [x] r ↔ cause x r :=
  interrupted_cons.trans (or_iff_left fun h => not_interrupted_nil h.2)

theorem interrupted_map {g : γ → α} {ys : List γ} : Interrupted read cause (ys.map g) r ↔
    Interrupted (fun y => read (g y)) (fun y => cause (g y)) ys r := by
  induction ys with
  | nil => exact iff_of_false not_interrupted_nil not_interrupted_nil
  | cons y ys ih => rw [List.map_cons, interrupted_cons, interrupted_cons, ih]

end

/-- Where items can fail in one way only, so can the list. -/
theorem mapM_ok_or_error {ε α β : Type} {f : α → Except ε β} {xs : List α} {e : ε}
    (h : ∀ x ∈ xs, (∃ y, f x = .ok y) ∨ f x = .error e) :
    (∃ ys, xs.mapM f = .ok ys) ∨ xs.mapM f = .error e := by
  induction xs with
  | nil => exact Or.inl ⟨[], rfl⟩
  | cons x rest ih =>
    rw [List.mapM_cons]
    rcases h x List.mem_cons_self with ⟨y, hy⟩ | herror
    · rw [hy]
      rcases ih fun z hz => h z (List.mem_cons_of_mem x hz) with ⟨ys, hys⟩ | herror
      · rw [hys]
        exact Or.inl ⟨y :: ys, rfl⟩
      · rw [herror]
        exact Or.inr rfl
    · rw [herror]
      exact Or.inr rfl

theorem forM_eq_ok {ε α : Type} {f : α → Except ε Unit} {xs : List α} :
    xs.forM f = .ok () ↔ ∀ x ∈ xs, f x = .ok () := by
  induction xs with
  | nil => simp [pure, Except.pure]
  | cons x xs ih =>
    change (f x >>= fun _ => xs.forM f) = .ok () ↔ _
    rw [bind_eq_ok, List.forall_mem_cons, ← ih]
    exact ⟨fun ⟨_, hx, hxs⟩ => ⟨hx, hxs⟩, fun ⟨hx, hxs⟩ => ⟨(), hx, hxs⟩⟩

/-! ## Steps that fail alike -/

theorem mapError_bind {β γ ε : Type} {tell : ε → ε} {x : Except ε β} {f f' : β → Except ε γ}
    (h : ∀ b, f' b = (f b).mapError tell) :
    (x.mapError tell >>= f') = (x >>= f).mapError tell := by
  cases x with
  | error e => rfl
  | ok b => exact h b

/-- A traversal whose steps fail alike fails alike. -/
theorem mapM_mapError {ι κ β γ ε : Type} {move : ι → κ} {image : β → γ} {tell : ε → ε}
    {f : ι → Except ε β} {f' : κ → Except ε γ} {xs : List ι}
    (h : ∀ x ∈ xs, f' (move x) = ((f x).map image).mapError tell) :
    (xs.map move).mapM f' = ((xs.mapM f).map (List.map image)).mapError tell := by
  induction xs with
  | nil => rfl
  | cons x rest ih =>
    rw [List.map_cons, List.mapM_cons, List.mapM_cons, h x List.mem_cons_self,
      ih fun y hy => h y (List.mem_cons_of_mem _ hy)]
    cases f x with
    | error e => rfl
    | ok b => cases rest.mapM f <;> rfl

theorem mapM_mapError_id {ι κ β ε : Type} {move : ι → κ} {tell : ε → ε} {f : ι → Except ε β}
    {f' : κ → Except ε β} {xs : List ι} (h : ∀ x ∈ xs, f' (move x) = (f x).mapError tell) :
    (xs.map move).mapM f' = (xs.mapM f).mapError tell := by
  have hid : ∀ {γ : Type} (x : Except ε γ), x.map id = x := fun x => by cases x <;> rfl
  have hmapM : (xs.map move).mapM f' = ((xs.mapM f).map (List.map id)).mapError tell :=
    mapM_mapError fun x hx => by rw [h x hx, hid]
  rwa [List.map_id_fun, hid] at hmapM

theorem mapM_image {ι β γ ε : Type} {image : β → γ} {f : ι → Except ε β} {f' : ι → Except ε γ}
    {xs : List ι} (h : ∀ x ∈ xs, f' x = (f x).map image) :
    xs.mapM f' = (xs.mapM f).map (List.map image) := by
  have hid : ∀ {γ : Type} (x : Except ε γ), x.mapError id = x := fun x => by cases x <;> rfl
  have hmapM : (xs.map id).mapM f' = ((xs.mapM f).map (List.map image)).mapError id :=
    mapM_mapError fun x hx => by rw [id_eq, h x hx, hid]
  rwa [List.map_id_fun, id_eq, hid] at hmapM

/-! ## What errors there are -/

section

variable {ε α β : Type} {P : ε → Prop}

/-- All errors of a step fulfil a condition. -/
def FailsAs (P : ε → Prop) (x : Except ε α) : Prop := ∀ e, x = .error e → P e

theorem failsAs_ok (a : α) : FailsAs P (.ok a) := fun _ h => (nomatch h)

theorem failsAs_error {e : ε} (h : P e) : FailsAs P (.error e : Except ε α) := by
  rintro _ ⟨⟩
  exact h

theorem failsAs_bind_of {x : Except ε α} {f : α → Except ε β} (hx : FailsAs P x)
    (hf : ∀ a, x = .ok a → FailsAs P (f a)) : FailsAs P (x >>= f) := by
  cases x with
  | error e => exact failsAs_error (hx e rfl)
  | ok a => exact hf a rfl

theorem failsAs_bind {x : Except ε α} {f : α → Except ε β} (hx : FailsAs P x)
    (hf : ∀ a, FailsAs P (f a)) : FailsAs P (x >>= f) :=
  failsAs_bind_of hx fun a _ => hf a

theorem failsAs_mapM {f : α → Except ε β} (xs : List α) (hf : ∀ x, FailsAs P (f x)) :
    FailsAs P (xs.mapM f) := by
  induction xs with
  | nil => exact failsAs_ok []
  | cons x xs ih =>
    rw [List.mapM_cons]
    exact failsAs_bind (hf x) fun _ => failsAs_bind ih fun _ => failsAs_ok _

theorem failsAs_forM {f : α → Except ε Unit} (xs : List α) (hf : ∀ x, FailsAs P (f x)) :
    FailsAs P (xs.forM f) := by
  induction xs with
  | nil => exact failsAs_ok ()
  | cons x xs ih => exact failsAs_bind (hf x) fun _ => ih

theorem failsAs_mapError {δ : Type} {x : Except δ α} {f : δ → ε}
    (hf : ∀ e, x = .error e → P (f e)) : FailsAs P (x.mapError f) := by
  cases x with
  | error e => exact failsAs_error (hf e rfl)
  | ok a => exact failsAs_ok a

end

/-! ## What results there are -/

section

variable {ε α β : Type} {P : α → Prop} {Q : β → Prop} {x : Except ε α} {f : α → Except ε β}

/-- What a step comes to, if it comes to anything, fulfils a condition. -/
def Yields (P : α → Prop) (x : Except ε α) : Prop := ∀ a, x = .ok a → P a

theorem yields_ok {a : α} (h : P a) : Yields P (.ok a : Except ε α) := by
  rintro _ ⟨⟩
  exact h

theorem yields_bind (hx : Yields P x) (hf : ∀ a, P a → Yields Q (f a)) : Yields Q (x >>= f) := by
  intro b hb
  obtain ⟨a, ha, hb⟩ := bind_eq_ok.mp hb
  exact hf a (hx a ha) b hb

theorem yields_after (hf : ∀ a, Yields Q (f a)) : Yields Q (x >>= f) :=
  yields_bind (P := fun _ => True) (fun _ _ => trivial) fun a _ => hf a

theorem yields_filterMapM {f : α → Except ε (Option β)} (xs : List α)
    (hf : ∀ x, Yields (fun found => ∀ b ∈ found, Q b) (f x)) :
    Yields (fun bs => ∀ b ∈ bs, Q b) (xs.filterMapM f) := by
  induction xs with
  | nil => exact yields_ok (List.forall_mem_nil _)
  | cons x rest ih =>
    rw [List.filterMapM_cons]
    refine yields_bind (hf x) fun found hfound => ?_
    cases found with
    | none => exact ih
    | some b =>
      exact yields_bind ih fun bs hbs => yields_ok (List.forall_mem_cons.mpr ⟨hfound b rfl, hbs⟩)

end

end EnergyGraph
