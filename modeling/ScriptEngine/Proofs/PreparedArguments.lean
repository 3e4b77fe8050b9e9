import ScriptEngine.Proofs.CodeMemory
/-!
# Prepared arguments and static checks

A call of a builtin is checked twice: before it runs, against the number and the kinds of its arguments as far as
they are known, and when it runs, while the arguments are converted. What the second check lets through the first
does too, and a builtin may rely on the kinds of the arguments that it is given.
-/

namespace ScriptEngine

/-- Whether a value of kind `k` may be given where a builtin asks for `target`: the kind itself, any kind of array
for an array, and anything for the kind of all values. -/
def Kind.Meets (k target : Kind) : Prop := target = .any ∨ k = target ∨ target = .array ∧ k.isArray = true

/-- Whether a builtin may be given a value of kind `k` for a parameter. -/
def Signature.Param.Admits (p : Param) (k : Kind) : Prop :=
  k.Meets p.kind ∨ p.keep = true ∧ k.assignable p.kind = true

/-! ## Kinds -/

/-- Everything but a function may stand where a text is asked for. -/
theorem Kind.assignable_string {k : Kind} (h : k ≠ .function) : k.assignable .string = true := by
  cases k <;> first | rfl | exact absurd rfl h

/-- Where an array is assignable, so is one of any kind. -/
theorem Kind.assignable_of_array {k target : Kind} (h : Kind.array.assignable target = true) (hk : k.isArray = true) :
    k.assignable target = true := by
  cases k <;> first | exact absurd hk (by decide) | (cases target <;> first | rfl | exact absurd h (by decide))

/-- Where some kind of array is assignable, so is an array, unless an array of bytes is asked for. -/
theorem Kind.array_assignable {k target : Kind} (h : k.assignable target = true) (hk : k.isArray = true)
    (packed : k ≠ .byteArray) : Kind.array.assignable target = true := by
  cases k <;> first
    | exact absurd hk (by decide)
    | exact absurd rfl packed
    | (cases target <;> first | rfl | exact absurd h (by decide))

/-- The kind of an array of whatever elements is one of the kinds of arrays. -/
theorem Cells.isArray_kind (c : Cells) : c.kind.isArray = true := by cases c <;> rfl

/-- Only null is of the kind of null. -/
theorem Store.kindOf_ne_null {s : Store} {v : Value} (h : v.isNull = false) : s.kindOf v ≠ .null := by
  cases v with
  | null => cases h
  | array a =>
    intro hk
    have isArray := Cells.isArray_kind (s.array a).cells
    rw [show (s.array a).cells.kind = .null from hk] at isArray
    cases isArray
  | _ => exact nofun

/-- What is no function is of another kind than functions. -/
theorem Store.kindOf_ne_function {s : Store} {v : Value} (h : ∀ a, v ≠ .function a) : s.kindOf v ≠ .function := by
  cases v with
  | function a => exact absurd rfl (h a)
  | array a =>
    intro hk
    have isArray := Cells.isArray_kind (s.array a).cells
    rw [show (s.array a).cells.kind = .function from hk] at isArray
    cases isArray
  | _ => exact nofun

/-! ## Growing memory -/

/-- Memory has grown from `s` to `s'`: all arrays of `s` are as they were, and no array of bytes is new. -/
def Store.Grows (s s' : Store) : Prop :=
  ∃ more : Array ArrayData, s'.arrays = s.arrays ++ more ∧ ∀ d ∈ more, d.cells.kind ≠ .byteArray

theorem Store.Grows.refl (s : Store) : s.Grows s := ⟨#[], by simp, by simp⟩

theorem Store.Grows.trans {s t u : Store} : s.Grows t → t.Grows u → s.Grows u := by
  rintro ⟨more, ht, fresh⟩ ⟨more', hu, fresh'⟩
  refine ⟨more ++ more', by rw [hu, ht, Array.append_assoc], fun d hd => ?_⟩
  exact (Array.mem_append.mp hd).elim (fresh d) (fresh' d)

/-- A value keeps its kind while memory grows. Nothing is asked of addresses: one where no array lies reads as that
of an array, and an array that is put there is not one of bytes. -/
theorem Store.Grows.kindOf {s t : Store} (h : s.Grows t) (v : Value) : t.kindOf v = s.kindOf v ∨
    s.kindOf v = .array ∧ (t.kindOf v).isArray = true ∧ t.kindOf v ≠ .byteArray := by
  cases v with
  | array a =>
    obtain ⟨more, ht, fresh⟩ := h
    change (t.array a).cells.kind = (s.array a).cells.kind ∨ (s.array a).cells.kind = .array ∧
      (t.array a).cells.kind.isArray = true ∧ (t.array a).cells.kind ≠ .byteArray
    rw [Store.array, Store.array, ht]
    by_cases ha : a < s.arrays.size
    · left
      rw [Array.getElem?_append_left ha]
    · right
      rw [Array.getElem?_append_right (Nat.le_of_not_lt ha), Array.getElem?_eq_none (Nat.le_of_not_lt ha)]
      refine ⟨rfl, Cells.isArray_kind _, ?_⟩
      cases found : more[a - s.arrays.size]? with
      | none => exact nofun
      | some d => exact fresh d (Array.mem_of_getElem? found)
  | _ => exact .inl rfl

/-- What is assignable after memory has grown was assignable before. -/
theorem Store.Grows.assignable {s t : Store} (grown : s.Grows t) {v : Value} {target : Kind}
    (h : (t.kindOf v).assignable target = true) : (s.kindOf v).assignable target = true := by
  obtain same | ⟨before, after, packed⟩ := grown.kindOf v
  · rwa [← same]
  · rw [before]
    exact Kind.array_assignable h after packed

/-- An argument that is admitted stays so while memory grows. -/
theorem Signature.Param.Admits.grows {p : Param} {s t : Store} {v : Value} (h : p.Admits (s.kindOf v))
    (grown : s.Grows t) : p.Admits (t.kindOf v) := by
  obtain same | ⟨before, after, -⟩ := grown.kindOf v
  · rwa [same]
  rw [before] at h
  obtain (hany | hself | ⟨harray, -⟩) | ⟨keep, fits⟩ := h
  · exact .inl (.inl hany)
  · exact .inl (.inr (.inr ⟨hself.symm, after⟩))
  · exact .inl (.inr (.inr ⟨harray, after⟩))
  · exact .inr ⟨keep, Kind.assignable_of_array fits after⟩

/-! ## Elements of packed arrays -/

/-- New elements are of the kind of the array that holds them. -/
theorem Cells.kind_fresh (target : Kind) (n : Nat) (h : target = .bitmap ∨ target = .intMap) :
    (Cells.fresh target n).kind = target := by
  obtain rfl | rfl := h <;> rfl

/-- Putting an element into its place keeps the kind of the array. -/
theorem Cells.kind_put {c c' : Cells} {i : Nat} {k : Kind} {v : Value} (h : c.put i k v = .ok c') :
    c'.kind = c.kind := by
  have mapped {r : Except Fault Int} {f : Int → Cells} {k : Kind} (hr : r.map f = .ok c')
      (hf : ∀ n, (f n).kind = k) : c'.kind = k := by
    cases r with
    | error e => cases hr
    | ok n =>
      cases hr
      exact hf n
  unfold Cells.put at h
  cases c with
  | boxed items =>
    cases h
    rfl
  | bytes items | ints items => exact mapped h fun _ => rfl
  | bits octets len =>
    cases v with
    | bool b =>
      cases h
      rfl
    | _ => exact mapped h fun _ => rfl

namespace StoreM

variable {α β : Type} {s t : Store} {good : Value → Store → Prop}

/-- From memory `s` a computation makes memory grow, and what it gives is good. -/
def Gives (good : Value → Store → Prop) (x : StoreM Value) (s : Store) : Prop :=
  s.Grows (x.run.run s).2 ∧ ∀ w, (x.run.run s).1 = .ok w → good w (x.run.run s).2

/-- Json data lies in memory beside arrays. -/
theorem blind_arrays : BlindToJson Store.arrays := fun _ _ _ _ => rfl

/-- What leaves arrays alone makes memory grow. -/
theorem Leaves.grows {x : StoreM α} (h : Leaves Store.arrays x) (s : Store) : s.Grows (x.run.run s).2 :=
  ⟨#[], by rw [h s]; simp, by simp⟩

theorem gives_pure {v : Value} (h : good v s) : Gives good (pure v) s := by
  refine ⟨Store.Grows.refl s, fun w hw => ?_⟩
  cases hw
  exact h

theorem gives_throw (f : Fault) : Gives good (throw f) s := ⟨Store.Grows.refl s, nofun⟩

theorem Gives.mono {good' : Value → Store → Prop} {x : StoreM Value} (h : Gives good x s)
    (weaker : ∀ w t, good w t → good' w t) : Gives good' x s := ⟨h.1, fun w hw => weaker w _ (h.2 w hw)⟩

/-- What is given after a computation that leaves arrays alone. -/
theorem gives_bind {x : StoreM α} {f : α → StoreM Value} (hx : Leaves Store.arrays x)
    (hf : ∀ a t, s.Grows t → Gives good (f a) t) : Gives good (x >>= f) s := by
  have grown := hx.grows s
  unfold Gives
  rw [ExceptT.run_bind, StateT.run_bind]
  obtain ⟨r, t, hr⟩ : ∃ r t, StateT.run (ExceptT.run x) s = (r, t) := ⟨_, _, rfl⟩
  rw [hr] at grown ⊢
  cases r with
  | error e => exact ⟨grown, nofun⟩
  | ok a =>
    obtain ⟨more, given⟩ := hf a t grown
    exact ⟨grown.trans more, given⟩

/-- A look at the kind of a value changes nothing. -/
theorem run_kindOf (v : Value) (f : Kind → StoreM α) (s : Store) :
    (kindOf v >>= f).run.run s = (f (s.kindOf v)).run.run s := rfl

theorem gives_kindOf {v : Value} {f : Kind → StoreM Value} (h : Gives good (f (s.kindOf v)) s) :
    Gives good (kindOf v >>= f) s := h

theorem gives_tryCatch {x : StoreM Value} {f : Fault → StoreM Value} (hx : Gives good x s)
    (hf : ∀ e t, Gives good (f e) t) : Gives good (tryCatch x f) s := by
  unfold Gives at hx ⊢
  rw [ExceptT.run_tryCatch, StateT.run_bind]
  obtain ⟨r, t, hr⟩ : ∃ r t, StateT.run (ExceptT.run x) s = (r, t) := ⟨_, _, rfl⟩
  rw [hr] at hx ⊢
  cases r with
  | ok a => exact hx
  | error e => exact ⟨hx.1.trans (hf e t).1, (hf e t).2⟩

/-- A new array makes memory grow, and is of the kind of its elements. -/
theorem gives_newArray {d : ArrayData} (packed : d.cells.kind ≠ .byteArray)
    (h : ∀ a t, t.kindOf (.array a) = d.cells.kind → good (.array a) t) : Gives good (newArray d) s := by
  refine ⟨⟨#[d], by simp [newArray]; rfl, by simpa using packed⟩, fun w hw => ?_⟩
  cases hw
  refine h _ _ ?_
  change (Store.array _ s.arrays.size).cells.kind = d.cells.kind
  rw [Store.array, show (StateT.run (ExceptT.run (newArray d)) s).2.arrays = s.arrays.push d from rfl,
    Array.getElem?_push_size]
  rfl

theorem gives_newBox (h : ∀ a t, good (.json a) t) (n : Node) : Gives good (newBox n) s := by
  refine ⟨(leaves_newBox blind_arrays n).grows s, fun w hw => ?_⟩
  cases hw
  exact h _ _

/-- The json value of a text is a json value. -/
theorem gives_jsonOfText (h : ∀ a t, good (.json a) t) (text : Text) : Gives good (jsonOfText text) s := by
  unfold jsonOfText
  dsimp only
  split
  · unfold parseJson
    split
    · exact gives_bind (leaves_ofTree blind_arrays _) fun n t _ => gives_newBox h n
    · exact gives_throw _
  · exact gives_newBox h _

/-- Elements put one after another keep the kind of the array that they are put into. -/
theorem kind_filled {kindOf : Value → Kind} (vs : List Value) {c c' : Cells} {i j : Nat}
    (h : vs.foldlM (fun (acc : Cells × Nat) (v : Value) => do
      let c ← acc.1.put acc.2 (kindOf v) v
      pure (c, acc.2 + 1)) (c, i) = (Except.ok (c', j) : Except Fault _)) : c'.kind = c.kind := by
  induction vs generalizing c i with
  | nil =>
    cases h
    rfl
  | cons v vs ih =>
    rw [List.foldlM_cons] at h
    cases hput : c.put i (kindOf v) v with
    | error e =>
      rw [hput] at h
      cases h
    | ok c₁ =>
      rw [hput] at h
      exact (ih h).trans (Cells.kind_put hput)

/-- An array that is packed anew is of the kind asked for. -/
theorem gives_repack {target : Kind} (ht : target = .bitmap ∨ target = .intMap)
    (h : ∀ a t, t.kindOf (.array a) = target → good (.array a) t) (d : ArrayData) :
    Gives good (repack target d) s := by
  refine gives_bind leaves_get fun s' u hu => ?_
  dsimp only
  split
  · rename_i c _ hr
    have kind : c.kind = target := (kind_filled _ hr).trans (Cells.kind_fresh target _ ht)
    refine gives_newArray ?_ fun a t ha => h a t (ha.trans kind)
    rw [kind]
    obtain rfl | rfl := ht <;> exact nofun
  · exact gives_throw _

/-- What a conversion of a value of memory `s` gives: it is not null, it is of the kind asked for, and the value was
assignable to that kind. -/
structure Converted (s : Store) (v : Value) (target : Kind) (w : Value) (t : Store) : Prop where
  present : w.isNull = false
  meets : (t.kindOf w).Meets target
  allowed : (s.kindOf v).assignable target = true

/-- A conversion of a value that is not null makes memory grow, and gives a value of the kind asked for. It does so
for assignable values only. -/
theorem gives_coerce {v : Value} {target : Kind} (valid : target ≠ .invalid) (present : v.isNull = false) :
    Gives (Converted s v target) (coerce v target) s := by
  refine gives_kindOf ?_
  split
  · rename_i same
    rw [Bool.or_eq_true, Bool.or_eq_true, decide_eq_true_eq, decide_eq_true_eq, decide_eq_true_eq] at same
    obtain (rfl | rfl) | rfl := same
    · exact gives_pure ⟨present, .inr (.inl rfl), by simp [Kind.assignable]⟩
    · exact gives_pure ⟨present, .inl rfl, by simp [Kind.assignable]⟩
    · exact absurd rfl valid
  split
  · rename_i null
    exact absurd null (Store.kindOf_ne_null present)
  have boxed (h : (s.kindOf v).assignable .json = true) (n : Node) (u : Store) :
      Gives (Converted s v .json) (newBox n) u :=
    gives_newBox (fun _ _ => ⟨rfl, .inr (.inl rfl), h⟩) n
  have data (h : (s.kindOf v).assignable .json = true) (w : Value) :
      Gives (Converted s v .json) (do newBox (← normalize (← toNode w))) s :=
    gives_bind (leaves_toNode blind_arrays w) fun n _ _ =>
      gives_bind (leaves_normalize blind_arrays n) fun n u _ => boxed h n u
  have isArray (a : Nat) : (s.kindOf (.array a)).isArray = true := Cells.isArray_kind _
  split
  -- numbers are made wider
  iterate 6 exact gives_pure ⟨rfl, .inr (.inl rfl), rfl⟩
  · exact gives_throw _
  · rename_i noFunction
    refine gives_bind (leaves_inspect _) fun text u _ => gives_pure ⟨rfl, .inr (.inl rfl), ?_⟩
    exact Kind.assignable_string (Store.kindOf_ne_function noFunction)
  · refine gives_bind leaves_get fun s' u _ => ?_
    split
    · exact gives_pure ⟨rfl, .inr (.inl rfl), rfl⟩
    · exact gives_throw _
  · exact gives_jsonOfText (fun _ _ => ⟨rfl, .inr (.inl rfl), rfl⟩) _
  · exact data (Kind.assignable_of_array rfl (isArray _)) _
  iterate 5 exact data rfl _
  · exact gives_pure ⟨rfl, .inr (.inr ⟨rfl, isArray _⟩), Kind.assignable_of_array rfl (isArray _)⟩
  · refine gives_bind leaves_get fun s' u _ => ?_
    split
    · refine gives_bind leaves_get fun s' u _ => gives_bind (leaves_mapM (leaves_ofNode blind_arrays) _) ?_
      exact fun items u _ => gives_newArray nofun fun _ _ ha => ⟨rfl, .inr (.inl ha), rfl⟩
    · exact gives_throw _
  · refine gives_bind leaves_get fun s' u _ => gives_repack (.inl rfl) (fun _ _ ha => ⟨rfl, .inr (.inl ha), ?_⟩) _
    exact Kind.assignable_of_array rfl (isArray _)
  · refine gives_bind leaves_get fun s' u _ => gives_repack (.inr rfl) (fun _ _ ha => ⟨rfl, .inr (.inl ha), ?_⟩) _
    exact Kind.assignable_of_array rfl (isArray _)
  · exact gives_throw _

end StoreM

/-! ## Preparation -/

namespace Signature

/-- How an argument of memory `s` that has been prepared for a parameter lies in memory `t`. -/
structure Param.Accepts (p : Param) (s t : Store) (given prepared : Value) : Prop where
  /-- Only what was left out is null. -/
  null_only : prepared.isNull = true → given.isNull = true
  /-- Only what need not be given was left out. -/
  optional : given.isNull = true → p.mandatory = false
  /-- What is not null is of a kind that the parameter admits. -/
  admitted : prepared.isNull = false → p.Admits (t.kindOf prepared)
  /-- What was given was assignable to the kind of the parameter. -/
  allowed : given.isNull = false → (s.kindOf given).assignable p.kind = true

theorem Param.Accepts.grows {p : Param} {s s' t t' : Store} {v w : Value} (h : p.Accepts s' t v w)
    (before : s.Grows s') (after : t.Grows t') : p.Accepts s t' v w where
  null_only := h.null_only
  optional := h.optional
  admitted hw := (h.admitted hw).grows after
  allowed hv := before.assignable (h.allowed hv)

/-- Why an argument of memory `s` can not be prepared for a parameter: it is missing though it must be given, or its
conversion fails. -/
def Param.Refuses (p : Param) (s : Store) (v : Value) : Prop :=
  v.isNull = true ∧ p.mandatory = true ∨ v.isNull = false ∧ ∃ e, ((StoreM.coerce v p.kind).run.run s).1 = .error e

section Runs

variable {α β : Type} {x : StoreM α} {f : α → StoreM β} {s u : Store}

/-- Two computations succeed one after the other when both do. -/
theorem run_bind_ok {b : β} (h : (x >>= f).run.run s = (.ok b, u)) :
    ∃ a t, x.run.run s = (.ok a, t) ∧ (f a).run.run t = (.ok b, u) := by
  rw [ExceptT.run_bind, StateT.run_bind] at h
  obtain ⟨r, t, hr⟩ : ∃ r t, StateT.run (ExceptT.run x) s = (r, t) := ⟨_, _, rfl⟩
  rw [hr] at h ⊢
  cases r with
  | error e => cases h
  | ok a => exact ⟨a, t, rfl, h⟩

/-- Two computations fail one after the other when the first does, or the second after the first. -/
theorem run_bind_error {e : Fault} (h : (x >>= f).run.run s = (.error e, u)) :
    x.run.run s = (.error e, u) ∨ ∃ a t, x.run.run s = (.ok a, t) ∧ (f a).run.run t = (.error e, u) := by
  rw [ExceptT.run_bind, StateT.run_bind] at h
  obtain ⟨r, t, hr⟩ : ∃ r t, StateT.run (ExceptT.run x) s = (r, t) := ⟨_, _, rfl⟩
  rw [hr] at h ⊢
  cases r with
  | error e =>
    cases h
    exact .inl rfl
  | ok a => exact .inr ⟨a, t, rfl, h⟩

end Runs

/-- What is prepared for a parameter is accepted by it. -/
theorem gives_prepareOne (name : Text) {p : Param} (valid : p.kind ≠ .invalid) (v : Value) (s : Store) :
    StoreM.Gives (fun w t => p.Accepts s t v w) (prepareOne name p v) s := by
  unfold prepareOne
  split
  · rename_i null
    split
    · exact StoreM.gives_throw _
    · rename_i optional
      exact StoreM.gives_pure ⟨fun _ => null, fun _ => Bool.eq_false_iff.mpr optional, nofun, fun h => by simp [null] at h⟩
  · rename_i present
    have present : v.isNull = false := Bool.eq_false_iff.mpr present
    refine StoreM.gives_kindOf ?_
    split
    · rename_i kept
      rw [Bool.and_eq_true] at kept
      exact StoreM.gives_pure ⟨id, fun h => by simp [present] at h, fun _ => .inr kept, fun _ => kept.2⟩
    · refine StoreM.gives_tryCatch ?_ fun e t => StoreM.gives_throw _
      refine (StoreM.gives_coerce valid present).mono fun w t h => ?_
      exact ⟨fun hw => by simp [h.present] at hw, fun hv => by simp [present] at hv, fun _ => .inl h.meets,
        fun _ => h.allowed⟩

/-- Why one argument can not be prepared. -/
theorem refused_prepareOne {name : Text} {p : Param} {v : Value} {s t : Store} {e : Fault}
    (h : (prepareOne name p v).run.run s = (.error e, t)) : p.Refuses s v := by
  unfold prepareOne at h
  split at h
  · rename_i null
    split at h
    · rename_i mandatory
      exact .inl ⟨null, mandatory⟩
    · cases h
  · rename_i present
    rw [StoreM.run_kindOf] at h
    split at h
    · cases h
    · refine .inr ⟨Bool.eq_false_iff.mpr present, ?_⟩
      rw [ExceptT.run_tryCatch, StateT.run_bind] at h
      cases hr : ((StoreM.coerce v p.kind).run.run s).1 with
      | error e => exact ⟨e, rfl⟩
      | ok w =>
        obtain ⟨r, u, hru⟩ : ∃ r u, (StoreM.coerce v p.kind).run.run s = (r, u) := ⟨_, _, rfl⟩
        rw [hru] at h hr
        cases hr
        cases h

/-- Prepared arguments are accepted by their parameters. -/
theorem accepts_prepareAll {name : Text} {ps : List Param} {args vs : List Value} {s t : Store}
    (valid : ∀ p ∈ ps, p.kind ≠ .invalid) (h : (prepareAll name ps args).run.run s = (.ok vs, t)) :
    s.Grows t ∧ vs.length = ps.length ∧
      ∀ i (p : Param), ps[i]? = some p → ∃ v, vs[i]? = some v ∧ p.Accepts s t (args.getD i .null) v := by
  induction ps generalizing args vs s with
  | nil =>
    cases h
    exact ⟨Store.Grows.refl _, rfl, fun i p hp => nomatch hp⟩
  | cons p ps ih =>
    obtain ⟨v, s₁, one, h⟩ := run_bind_ok h
    obtain ⟨rest, t₁, all, h⟩ := run_bind_ok h
    cases h
    have given := gives_prepareOne name (valid p (List.mem_cons_self ..)) (args.headD .null) s
    unfold StoreM.Gives at given
    rw [one] at given
    obtain ⟨grown, accepted⟩ := given
    obtain ⟨grown', length, accepts⟩ := ih (fun q hq => valid q (List.mem_cons_of_mem _ hq)) all
    refine ⟨grown.trans grown', congrArg (· + 1) length, fun i q hq => ?_⟩
    cases i with
    | zero =>
      cases hq
      refine ⟨v, rfl, ?_⟩
      have first : args.getD 0 .null = args.headD .null := by cases args <;> rfl
      rw [first]
      exact (accepted v rfl).grows (Store.Grows.refl s) grown'
    | succ i =>
      obtain ⟨w, hw, fits⟩ := accepts i q hq
      refine ⟨w, hw, ?_⟩
      have later : args.getD (i + 1) .null = (args.drop 1).getD i .null := by cases args <;> rfl
      rw [later]
      exact fits.grows grown (Store.Grows.refl _)

/-- Why arguments can not be prepared: the parameter of some argument refuses it in the memory that those before it
leave. -/
theorem refused_prepareAll {name : Text} {ps : List Param} {args : List Value} {s t : Store} {e : Fault}
    (h : (prepareAll name ps args).run.run s = (.error e, t)) :
    ∃ i p vs u, ps[i]? = some p ∧ (prepareAll name (ps.take i) args).run.run s = (.ok vs, u) ∧
      p.Refuses u (args.getD i .null) := by
  induction ps generalizing args s with
  | nil => cases h
  | cons p ps ih =>
    obtain one | ⟨v, s₁, one, h⟩ := run_bind_error h
    · refine ⟨0, p, [], s, rfl, rfl, ?_⟩
      have first : args.getD 0 .null = args.headD .null := by cases args <;> rfl
      rw [first]
      exact refused_prepareOne one
    · obtain all | ⟨rest, t₁, all, h⟩ := run_bind_error h
      · obtain ⟨i, q, vs, u, hq, before, refuses⟩ := ih all
        refine ⟨i + 1, q, v :: vs, u, hq, ?_, ?_⟩
        · rw [List.take_succ_cons, prepareAll, ExceptT.run_bind, StateT.run_bind, one]
          change (prepareAll name (ps.take i) (args.drop 1) >>= _).run.run s₁ = _
          rw [ExceptT.run_bind, StateT.run_bind, before]
          rfl
        · have later : args.getD (i + 1) .null = (args.drop 1).getD i .null := by cases args <;> rfl
          rw [later]
          exact refuses
      · cases h

/-- Arguments are enough when those that are missing need not be given. -/
theorem checkArity_of_optional {sig : Signature} {args : List Value} (fit : args.length ≤ sig.params.length)
    (optional : ∀ i p, sig.params[i]? = some p → (args.getD i .null).isNull = true → p.mandatory = false) :
    sig.checkArity args.length = none := by
  rw [checkArity, if_neg (Nat.not_lt.mpr fit), Option.map_eq_none_iff, List.find?_eq_none]
  intro p hp
  obtain ⟨i, hi⟩ := List.getElem?_of_mem hp
  rw [List.getElem?_drop] at hi
  have missing : (args.getD (args.length + i) .null).isNull = true := by
    rw [List.getD_eq_getElem?_getD, List.getElem?_eq_none (Nat.le_add_right ..)]
    rfl
  rw [optional _ p hi missing]
  exact Bool.false_ne_true

/-- Arguments are of fitting kinds when those that are not null are assignable. -/
theorem checkKinds_of_assignable {sig : Signature} {args : List Value} {s : Store}
    (allowed : ∀ i p, sig.params[i]? = some p → (args.getD i .null).isNull = false →
      (s.kindOf (args.getD i .null)).assignable p.kind = true) :
    sig.checkKinds (args.map s.kindOf) = none := by
  rw [checkKinds, Option.map_eq_none_iff, List.find?_eq_none]
  rintro ⟨p, k⟩ hpk
  obtain ⟨i, hi⟩ := List.getElem?_of_mem hpk
  obtain ⟨hp, hk⟩ := List.getElem?_zip_eq_some.mp hi
  rw [List.getElem?_map, Option.map_eq_some_iff] at hk
  obtain ⟨v, hv, rfl⟩ := hk
  have here : args.getD i .null = v := by rw [List.getD_eq_getElem?_getD, hv, Option.getD_some]
  have fits : (s.kindOf v).assignable p.kind = true := by
    cases present : v.isNull with
    | true =>
      cases v with
      | null => simp [Store.kindOf, Kind.assignable]
      | _ => cases present
    | false => exact here ▸ allowed i p hp (here ▸ present)
  simp [fits]

/-- The static checks of a call are never stricter than the preparation of its arguments, and a builtin may rely on
what is prepared.

If the arguments are prepared for a signature, then their number and their kinds pass the static checks, and there
is one prepared argument for every parameter: null only if the parameter need not be given and the argument is left
out or null, and otherwise of a kind that the parameter admits. If they can not be prepared, there are too many, or
one that must be given is missing, or the conversion of one fails in the memory that those before it leave. -/
theorem prepare_refines_checks (sig : Signature) (valid : ∀ p ∈ sig.params, p.kind ≠ .invalid) (args : List Value)
    (s t : Store) :
    (∀ vs, (sig.prepare args).run.run s = (.ok vs, t) →
      sig.checkArity args.length = none ∧ sig.checkKinds (args.map s.kindOf) = none ∧
      vs.length = sig.params.length ∧ ∀ i p, sig.params[i]? = some p → ∃ v, vs[i]? = some v ∧
        (v.isNull = true → p.mandatory = false ∧ (args.getD i .null).isNull = true) ∧
        (v.isNull = false → p.Admits (t.kindOf v))) ∧
    ∀ e, (sig.prepare args).run.run s = (.error e, t) →
      sig.params.length < args.length ∨ ∃ i p vs u, sig.params[i]? = some p ∧
        (prepareAll sig.name (sig.params.take i) args).run.run s = (.ok vs, u) ∧ p.Refuses u (args.getD i .null) := by
  unfold prepare
  by_cases many : sig.params.length < args.length
  · rw [if_pos many]
    exact ⟨fun vs h => (nomatch h), fun e _ => .inl many⟩
  · rw [if_neg many]
    refine ⟨fun vs h => ?_, fun e h => .inr (refused_prepareAll h)⟩
    obtain ⟨-, length, accepts⟩ := accepts_prepareAll valid h
    refine ⟨checkArity_of_optional (Nat.le_of_not_lt many) fun i p hp missing => ?_,
      checkKinds_of_assignable fun i p hp given => ?_, length, fun i p hp => ?_⟩
    · obtain ⟨v, -, accepted⟩ := accepts i p hp
      exact accepted.optional missing
    · obtain ⟨v, -, accepted⟩ := accepts i p hp
      exact accepted.allowed given
    · obtain ⟨v, hv, accepted⟩ := accepts i p hp
      exact ⟨v, hv, fun null => ⟨accepted.optional (accepted.null_only null), accepted.null_only null⟩,
        accepted.admitted⟩

/-- A byte is given for a whole number, another for a number of any kind, and a list is left out. -/
theorem prepare_refines_checks_bytes :
    let sig : Signature := ⟨"repeat", .null,
      [⟨"count", .int, true, false⟩, ⟨"factor", .double, true, true⟩, ⟨"items", .array, false, false⟩]⟩
    (sig.prepare [.byte 3, .byte 4]).run.run Store.initial = (.ok [.int 3, .byte 4, .null], Store.initial) ∧
      sig.checkArity 2 = none ∧ sig.checkKinds [.byte, .byte] = none := by
  intro sig
  have valid : ∀ p ∈ sig.params, p.kind ≠ .invalid := by decide
  have prepared : (sig.prepare [.byte 3, .byte 4]).run.run Store.initial =
      (.ok [.int 3, .byte 4, .null], Store.initial) := rfl
  obtain ⟨arity, kinds, -⟩ := (prepare_refines_checks sig valid [.byte 3, .byte 4] _ _).1 _ prepared
  exact ⟨prepared, arity, kinds⟩

end Signature

end ScriptEngine
