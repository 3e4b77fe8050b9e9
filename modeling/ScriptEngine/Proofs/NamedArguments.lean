import Mathlib.Data.List.Perm.Basic
import ScriptEngine.Proofs.ArgumentOrder
/-!
# Arguments that are given by name

Arguments with names are put at the places of the parameters of these names: those of a builtin while its call is read,
where open slots become null up to the last argument, and those of a script function when it is called. The two have their
own ways to look for a parameter and to fail. Both go slot by slot, and where two arguments do not meet in one slot it does
not matter which of them comes first.
-/

namespace ScriptEngine

/-! ## Slots -/

namespace Slots

variable {α : Type} {index : Text → Option Nat}

/-- Puts an argument into the slot of its name, unless there is no such slot or it is taken. -/
def place (index : Text → Option Nat) (slots : Option (List (Option α))) (arg : Text × α) : Option (List (Option α)) := do
  let filled ← slots
  let i ← index arg.1
  if (filled[i]?).join.isSome then none else some (filled.set i (some arg.2))

theorem place_some {arg : Text × α} {i : Nat} (here : index arg.1 = some i) (filled : List (Option α)) :
    place index (some filled) arg = if (filled[i]?).join.isSome then none else some (filled.set i (some arg.2)) := by
  simp [place, here]

/-- Two arguments may change their order: in different slots they do not meet, and in one slot the second is refused. -/
theorem place_comm (slots : Option (List (Option α))) (a b : Text × α) :
    place index (place index slots a) b = place index (place index slots b) a := by
  cases slots with
  | none => rfl
  | some filled =>
    cases ha : index a.1 with
    | none => cases hb : index b.1 <;> simp [place, ha, hb]
    | some i =>
      cases hb : index b.1 with
      | none => simp [place, ha, hb]
      | some j =>
        rw [place_some ha, place_some hb]
        by_cases same : i = j
        · subst same
          by_cases taken : (filled[i]?).join.isSome
          · rw [if_pos taken, if_pos taken]
            rfl
          · rw [if_neg taken, if_neg taken, place_some ha, place_some hb]
            by_cases inside : i < filled.length
            · simp [inside]
            · simp [List.set_eq_of_length_le (Nat.le_of_not_lt inside)]
        · have other : j ≠ i := fun h => same h.symm
          by_cases first : (filled[i]?).join.isSome <;> by_cases second : (filled[j]?).join.isSome
          all_goals simp [place, ha, hb, first, second, same, other, List.set_comm _ _ same]

instance : RightCommutative (place (α := α) index) := ⟨place_comm⟩

/-- The order in which arguments are put into their slots does not matter. -/
theorem foldl_place_perm {as bs : List (Text × α)} (h : as.Perm bs) (slots : Option (List (Option α))) :
    as.foldl (place index) slots = bs.foldl (place index) slots :=
  h.foldl_eq slots

/-- What has failed is not mended by more arguments. -/
theorem foldl_place_none (args : List (Text × α)) : args.foldl (place index) none = none := by
  induction args with
  | nil => rfl
  | cons arg args ih => exact ih

/-- Arguments that are given in the order of the slots, behind those that are filled, fill the next ones. -/
theorem foldl_place_inOrder (index : Text → Option Nat) (args : List (Text × α)) (done : List α) {room : Nat}
    (fits : args.length ≤ room)
    (inOrder : ∀ i arg, args[i]? = some arg → index arg.1 = some (done.length + i)) :
    args.foldl (place index) (some (done.map some ++ List.replicate room none)) =
      some ((done ++ args.map Prod.snd).map some ++ List.replicate (room - args.length) none) := by
  induction args generalizing done room with
  | nil => simp
  | cons arg args ih =>
    cases room with
    | zero => cases fits
    | succ room =>
      have here : place index (some (done.map some ++ List.replicate (room + 1) none)) arg =
          some ((done ++ [arg.2]).map some ++ List.replicate room none) := by
        simp [place, inOrder 0 arg rfl, List.replicate_succ]
      have next (i : Nat) (a : Text × α) (ha : args[i]? = some a) : index a.1 = some ((done ++ [arg.2]).length + i) := by
        rw [inOrder (i + 1) a ha, List.length_append, List.length_singleton]
        congr 1
        omega
      rw [List.foldl_cons, here, ih _ (Nat.le_of_succ_le_succ fits) next]
      simp

end Slots

/-- What a computation that may fail gives depends only on what it gives at first, and not on how that failed. -/
theorem toOption_bind_congr {ε α β : Type} {x y : Except ε α} (h : x.toOption = y.toOption) (f : α → Except ε β) :
    (x >>= f).toOption = (y >>= f).toOption := by
  cases x with
  | error e =>
    cases y with
    | error e' => rfl
    | ok b => cases h
  | ok a =>
    cases y with
    | error e => cases h
    | ok b =>
      cases h
      rfl

/-- A monadic fold that may fail is a fold of what may be missing. -/
theorem toOption_foldlM {ε σ β : Type} {f : σ → β → Except ε σ} {g : Option σ → β → Option σ} (strict : ∀ b, g none b = none)
    (step : ∀ s b, (f s b).toOption = g (some s) b) (bs : List β) (s : σ) :
    (bs.foldlM f s).toOption = bs.foldl g (some s) := by
  induction bs generalizing s with
  | nil => rfl
  | cons b bs ih =>
    rw [List.foldlM_cons, List.foldl_cons, ← step]
    cases f s b with
    | ok t => exact ih t
    | error e =>
      have failed (bs : List β) : bs.foldl g none = none := by
        induction bs with
        | nil => rfl
        | cons b bs ih => rw [List.foldl_cons, strict, ih]
      exact (failed bs).symm

/-- The place of a parameter where all names differ. -/
theorem findIdx?_distinct {α : Type} {params : List α} {name : α → Text} (distinct : (params.map name).Nodup) {i : Nat}
    (inside : i < params.length) : params.findIdx? (fun p => name p = name params[i]) = some i := by
  rw [List.findIdx?_eq_some_iff_getElem]
  refine ⟨inside, by simp, fun j before => ?_⟩
  rw [List.nodup_iff_pairwise_ne, List.pairwise_map, List.pairwise_iff_getElem] at distinct
  simpa using distinct j i (before.trans inside) inside before

/-- Arguments with the names of the first of some parameters, in order, fill their slots. -/
theorem Slots.foldl_place_params {α β : Type} {params : List β} {label : β → Text} (distinct : (params.map label).Nodup)
    {key : Text → Text} {names : List Text} {args : List α} (inOrder : names.map key = (params.take args.length).map label)
    (each : names.length = args.length) :
    args.length ≤ params.length ∧
      (names.zip args).foldl (Slots.place fun name => params.findIdx? fun p => label p = key name)
        (some (List.replicate params.length none)) =
          some (args.map some ++ List.replicate (params.length - args.length) none) := by
  have fits : args.length ≤ params.length := by
    have := congrArg List.length inOrder
    simp at this
    omega
  have inPlace (i : Nat) (arg : Text × α) (h : (names.zip args)[i]? = some arg) :
      (params.findIdx? fun p => label p = key arg.1) = some (([] : List α).length + i) := by
    rw [List.getElem?_zip_eq_some] at h
    have inside : i < args.length := each ▸ (List.getElem?_eq_some_iff.mp h.1).1
    have name : (names.map key)[i]? = some (key arg.1) := by rw [List.getElem?_map, h.1, Option.map_some]
    rw [inOrder, List.getElem?_map, List.getElem?_take_of_lt inside, List.getElem?_eq_getElem (inside.trans_le fits),
      Option.map_some, Option.some.injEq] at name
    rw [← name, List.length_nil, Nat.zero_add]
    exact findIdx?_distinct distinct (inside.trans_le fits)
  have room : (names.zip args).length ≤ params.length := by rwa [List.length_zip, each, Nat.min_self]
  have all := Slots.foldl_place_inOrder (fun name => params.findIdx? fun p => label p = key name) (names.zip args) [] room
    inPlace
  rw [List.map_snd_zip (by omega), List.length_zip, each, Nat.min_self] at all
  exact ⟨fits, all⟩

theorem zip_labels {α β : Type} (l : List (α × β)) : (l.map Prod.fst).zip (l.map Prod.snd) = l :=
  (List.zip_of_prod rfl rfl).symm

/-! ## Calls of builtins -/

namespace Signature

variable {α : Type} {s : Signature}

theorem toOption_fillSlot (slots : List (Option α)) (arg : Text × α) :
    (s.fillSlot slots arg).toOption = Slots.place s.paramIndex? (some slots) arg := by
  unfold fillSlot
  cases here : s.paramIndex? arg.1 with
  | none => simp [Slots.place, here, Except.toOption]
  | some i =>
    rw [Slots.place_some here]
    dsimp only
    cases slots[i]? with
    | none => rfl
    | some slot => cases slot <;> rfl

theorem toOption_fillSlots (args : List (Text × α)) (slots : List (Option α)) :
    (args.foldlM s.fillSlot slots).toOption = args.foldl (Slots.place s.paramIndex?) (some slots) :=
  toOption_foldlM (fun _ => rfl) toOption_fillSlot args slots

/-- Arguments are arranged in the same way in whatever order they are given. -/
theorem arrange_perm {as bs : List (Text × α)} (h : as.Perm bs) : (s.arrange as).toOption = (s.arrange bs).toOption := by
  refine toOption_bind_congr ?_ _
  rw [toOption_fillSlots, toOption_fillSlots, Slots.foldl_place_perm h]

theorem dropOpen_somes (args : List α) (n : Nat) : dropOpen (args.map some ++ List.replicate n none) = args.map some := by
  have filled : (args.map some).reverse.dropWhile (fun slot : Option α => slot.isNone) = (args.map some).reverse := by
    rw [List.dropWhile_eq_self_iff]
    intro inside
    simp
  rw [dropOpen, List.reverse_append, List.reverse_replicate, List.dropWhile_append, List.dropWhile_replicate]
  simp [filled]

/-- Where the first slots are filled, the first open slot of a mandatory parameter is the first one behind them. -/
theorem find?_open {params : List Param} {args : List α} (fits : args.length ≤ params.length) :
    ((params.zip (args.map some ++ List.replicate (params.length - args.length) none)).find? fun (p, slot) =>
      p.mandatory && slot.isNone).map Prod.fst = (params.drop args.length).find? (·.mandatory) := by
  have filled : ((params.take args.length).zip (args.map some)).find? (fun (p, slot) => p.mandatory && slot.isNone) = none := by
    rw [List.find?_eq_none]
    rintro ⟨p, slot⟩ inside
    obtain ⟨a, -, rfl⟩ := List.mem_map.mp (List.of_mem_zip inside).2
    simp
  have open' (ps : List Param) : ((ps.zip (List.replicate ps.length (none : Option α))).find? fun (p, slot) =>
      p.mandatory && slot.isNone).map Prod.fst = ps.find? (·.mandatory) := by
    induction ps with
    | nil => rfl
    | cons p ps ih =>
      rw [List.length_cons, List.replicate_succ, List.zip_cons_cons, List.find?_cons, List.find?_cons]
      dsimp only
      rw [Option.isNone_none, Bool.and_true]
      cases p.mandatory with
      | true => rfl
      | false => exact ih
  rw [← List.length_drop, ← open' (params.drop args.length)]
  nth_rewrite 1 [← List.take_append_drop args.length params]
  rw [List.zip_append (by simp [fits]), List.find?_append, filled, Option.none_or]

/-- Arguments with the names of the first parameters, in order, stay in this order, unless a mandatory parameter is missing. -/
theorem arrange_inOrder {names : List Text} {args : List α} (distinct : (s.params.map (·.name)).Nodup)
    (inOrder : names.map Text.lower = (s.params.take args.length).map (·.name)) (each : names.length = args.length) :
    (s.arrange (names.zip args)).toOption = if s.checkArity args.length = none then some (args.map some) else none := by
  obtain ⟨fits, all⟩ := Slots.foldl_place_params distinct inOrder each
  have placed : ((names.zip args).foldlM s.fillSlot (List.replicate s.params.length none)).toOption =
      some (args.map some ++ List.replicate (s.params.length - args.length) none) := by
    rw [toOption_fillSlots]
    exact all
  unfold arrange
  cases filled : (names.zip args).foldlM s.fillSlot (List.replicate s.params.length none) with
  | error e =>
    rw [filled] at placed
    cases placed
  | ok slots =>
    rw [filled] at placed
    cases placed
    have arity : s.checkArity args.length = ((s.params.drop args.length).find? (·.mandatory)).map fun p => .missing p.name := by
      rw [checkArity, if_neg (by omega)]
    rw [arity, ← find?_open fits]
    dsimp only [bind, Except.bind]
    split
    · rename_i p slot missing
      rw [missing]
      rfl
    · rename_i complete
      rw [complete, dropOpen_somes]
      rfl

end Signature

namespace Parser

variable {c : Catalog} {function : Text} {s : Signature} {m : Mark}

/-- Arguments with names have the same positions in whatever order they are given. -/
theorem positionalArgs_perm {as bs : List (Text × Expr)} (h : as.Perm bs) :
    (positionalArgs s m (as.map Prod.snd) (as.map Prod.fst)).toOption =
      (positionalArgs s m (bs.map Prod.snd) (bs.map Prod.fst)).toOption := by
  have both : (as.map Prod.fst).isEmpty = (bs.map Prod.fst).isEmpty := by
    rw [List.isEmpty_map, List.isEmpty_map, h.isEmpty_eq]
  unfold positionalArgs
  rw [zip_labels, zip_labels, both]
  split
  · rename_i none
    obtain rfl : bs = [] := by simpa using none
    obtain rfl := h.eq_nil
    rfl
  · exact toOption_bind_congr (Signature.arrange_perm h) _

/-- Arguments with the names of the first parameters, in order, are those of the call by position. -/
theorem positionalArgs_inOrder {names : List Text} {args : List Expr} (distinct : (s.params.map (·.name)).Nodup)
    (inOrder : names.map Text.lower = (s.params.take args.length).map (·.name)) (each : names.length = args.length) :
    (positionalArgs s m args names).toOption = some args ∨
      (positionalArgs s m args names).toOption = none ∧ s.checkArity args.length ≠ none := by
  unfold positionalArgs
  split
  · exact .inl rfl
  · have arranged := Signature.arrange_inOrder distinct inOrder each
    cases placed : s.arrange (names.zip args) with
    | error e =>
      rw [placed] at arranged
      right
      refine ⟨rfl, fun fits => ?_⟩
      rw [if_pos fits] at arranged
      cases arranged
    | ok slots =>
      rw [placed] at arranged
      split at arranged
      · cases arranged
        left
        change some ((args.map some).map fun a => a.getD (.null ⟨"null", m.line⟩)) = some args
        rw [List.map_map]
        exact congrArg some (List.map_id args)
      · cases arranged

/-- A call of a builtin that is known is checked successfully when its arguments have positions, and fit them in number and
kind. It keeps them at their positions. -/
theorem run_resolveCall_eq (known : Catalog.find? c function.lower = some s) (args : List Expr) (names : List Text)
    {st t : ParseState} {e : Expr} :
    (resolveCall c m function args names).run.run st = (some e, t) ↔
      t = st ∧ ∃ placed, (positionalArgs s m args names).toOption = some placed ∧ s.checkArity placed.length = none ∧
        s.checkKinds (placed.map (Expr.staticKind st.scopes)) = none ∧
        e = .call m function.lower placed [] true (if s.result = .null then "" else s.result.name) := by
  have refused {d : Fault.Detail} {line : Nat} {text : Text} : (fault d line text : ParseM Expr).run.run st ≠ (some e, t) := nofun
  unfold resolveCall
  dsimp only
  rw [known]
  dsimp only
  cases positionalArgs s m args names with
  | error mismatch => exact ⟨fun h => absurd h refused, nofun⟩
  | ok placed =>
    have table (x : ParseState → ParseM Expr) : (get >>= x).run.run st = (x st).run.run st := rfl
    dsimp only
    rw [table]
    constructor
    · intro h
      split at h
      · exact absurd h refused
      · rename_i few
        split at h
        · exact absurd h refused
        · rename_i fit
          cases h
          exact ⟨rfl, placed, rfl, few, fit, rfl⟩
    · rintro ⟨rfl, _, ⟨⟩, few, fit, rfl⟩
      rw [few]
      dsimp only
      rw [fit]
      rfl

end Parser

/-! ## Calls of script functions -/

namespace Eval

variable {g : FunctionData}

theorem toOption_placeNamed (args : List (Text × Value)) (bound : List (Option Value)) :
    (placeNamed g args bound).toOption =
      args.foldl (Slots.place fun name => g.params.findIdx? fun p => p.name = name) (some bound) := by
  induction args generalizing bound with
  | nil => rfl
  | cons arg args ih =>
    obtain ⟨name, v⟩ := arg
    rw [placeNamed, List.foldl_cons]
    cases here : g.params.findIdx? fun p => p.name = name with
    | none =>
      have failed : Slots.place (fun name => g.params.findIdx? fun p => p.name = name) (some bound) (name, v) = none := by
        simp [Slots.place, here]
      rw [failed, Slots.foldl_place_none]
      rfl
    | some i =>
      have placed : Slots.place (fun name => g.params.findIdx? fun p => p.name = name) (some bound) (name, v) =
          if (bound[i]?).join.isSome then none else some (bound.set i (some v)) := Slots.place_some here bound
      rw [placed]
      dsimp only
      split
      · exact (Slots.foldl_place_none args).symm
      · exact ih _

/-- The parameters of a script function get the same arguments in whatever order these are given. -/
theorem bindArguments_perm {as bs : List (Text × Value)} (h : as.Perm bs) :
    (bindArguments g (as.map Prod.snd) (as.map Prod.fst)).toOption =
      (bindArguments g (bs.map Prod.snd) (bs.map Prod.fst)).toOption := by
  unfold bindArguments
  dsimp only
  rw [zip_labels, zip_labels, List.length_map, List.length_map, List.isEmpty_map, List.isEmpty_map, h.length_eq, h.isEmpty_eq]
  split
  · rfl
  split
  · rename_i none
    obtain rfl : bs = [] := by simpa using none
    obtain rfl := h.eq_nil
    rfl
  · rw [toOption_placeNamed, toOption_placeNamed, Slots.foldl_place_perm h]

/-- Arguments with the names of the first parameters, in order, are bound as by position. -/
theorem bindArguments_inOrder {names : List Text} {args : List Value} (distinct : (g.params.map (·.name)).Nodup)
    (inOrder : names = (g.params.take args.length).map (·.name)) (each : names.length = args.length) :
    bindArguments g args names = bindArguments g args [] := by
  obtain ⟨fits, all⟩ := Slots.foldl_place_params distinct ((List.map_id names).trans inOrder) each
  unfold bindArguments
  dsimp only
  rw [if_neg (Nat.not_lt.mpr fits), if_neg (Nat.not_lt.mpr fits)]
  split
  · rfl
  have placed := toOption_placeNamed (g := g) (names.zip args) (List.replicate g.params.length none)
  have whole := placed.trans all
  cases bound : placeNamed g (names.zip args) (List.replicate g.params.length none) with
  | error e =>
    rw [bound] at whole
    cases whole
  | ok slots =>
    rw [bound] at whole
    cases whole
    rfl

/-- **Binding by name does not depend on the order of the arguments.** A call of a builtin with named arguments is checked
successfully in whatever order they are given, or in none, and becomes the same call; and a script function binds the same
arguments to its parameters, or refuses them, in whatever order. Where no two parameters share a name, arguments with the
names of the first parameters, in order, are those of the call by position. -/
theorem binding_by_name {c : Catalog} {function : Text} {s : Signature}
    (known : Parser.Catalog.find? c function.lower = some s) (g : FunctionData) (m : Mark) :
    (∀ as bs : List (Text × Expr), as.Perm bs → ∀ st t e,
      (Parser.resolveCall c m function (as.map Prod.snd) (as.map Prod.fst)).run.run st = (some e, t) ↔
        (Parser.resolveCall c m function (bs.map Prod.snd) (bs.map Prod.fst)).run.run st = (some e, t)) ∧
    (∀ as bs : List (Text × Value), as.Perm bs →
      (bindArguments g (as.map Prod.snd) (as.map Prod.fst)).toOption =
        (bindArguments g (bs.map Prod.snd) (bs.map Prod.fst)).toOption) ∧
    ((s.params.map (·.name)).Nodup → ∀ (names : List Text) (args : List Expr), names.length = args.length →
      names.map Text.lower = (s.params.take args.length).map (·.name) → ∀ st t e,
        (Parser.resolveCall c m function args names).run.run st = (some e, t) ↔
          (Parser.resolveCall c m function args []).run.run st = (some e, t)) ∧
    ((g.params.map (·.name)).Nodup → ∀ (names : List Text) (args : List Value), names.length = args.length →
      names = (g.params.take args.length).map (·.name) → bindArguments g args names = bindArguments g args []) := by
  refine ⟨fun as bs h st t e => ?_, fun as bs => bindArguments_perm, fun distinct names args each inOrder st t e => ?_,
    fun distinct names args each inOrder => bindArguments_inOrder distinct inOrder each⟩
  · rw [Parser.run_resolveCall_eq known, Parser.run_resolveCall_eq known, Parser.positionalArgs_perm h]
  · rw [Parser.run_resolveCall_eq known, Parser.run_resolveCall_eq known]
    obtain placed | ⟨refused, arity⟩ := Parser.positionalArgs_inOrder (m := m) distinct inOrder each
    · rw [placed]
      rfl
    · rw [refused]
      constructor
      · rintro ⟨-, _, ⟨⟩, -⟩
      · rintro ⟨-, _, ⟨⟩, few, -⟩
        exact absurd few arity

end Eval

namespace Eval

/-- Two named arguments of a builtin and of a script function, in both orders and by position. -/
theorem binding_by_name_swapped :
    let s : Signature := ⟨"str.substring", .string, [⟨"value", .string, true, false⟩, ⟨"start", .int, true, false⟩,
      ⟨"end", .int, false, false⟩]⟩
    let g : FunctionData := ⟨"f", [⟨"x", none, none⟩, ⟨"y", none, none⟩], none, default, 0⟩
    let a : Expr := .name ⟨"a", 1⟩ "a"
    let b : Expr := .name ⟨"b", 1⟩ "b"
    let call : List Expr → List Text → ParseM Expr := Parser.resolveCall freshMachine.catalog ⟨"(", 1⟩ "str.substring"
    Parser.Catalog.find? freshMachine.catalog "str.substring" = some s ∧
      (call [a, b] ["start", "value"]).run.run swappedState = (some swappedCall, swappedState) ∧
      (call [b, a] ["value", "start"]).run.run swappedState = (some swappedCall, swappedState) ∧
      (bindArguments g [.int 1, .int 2] ["y", "x"]).toOption = some [some (.int 2), some (.int 1)] ∧
      bindArguments g [.int 2, .int 1] ["x", "y"] = bindArguments g [.int 2, .int 1] [] := by
  intro s g a b call
  have lower : Text.lower "str.substring" = "str.substring" := by decide
  have known : Parser.Catalog.find? freshMachine.catalog (Text.lower "str.substring") = some s := lower ▸ known_swapped.1
  obtain ⟨calls, binds, callsInOrder, bindsInOrder⟩ := binding_by_name known g ⟨"(", 1⟩
  have byPosition : (call [b, a] []).run.run swappedState = (some swappedCall, swappedState) := by
    refine (Parser.run_resolveCall_eq known [b, a] []).mpr ⟨rfl, [b, a], rfl, by decide, by decide, ?_⟩
    rw [lower]
    rfl
  have inOrder : (call [b, a] ["value", "start"]).run.run swappedState = (some swappedCall, swappedState) :=
    (callsInOrder (by decide) ["value", "start"] [b, a] rfl (by decide) _ _ _).mpr byPosition
  refine ⟨known_swapped.1, ?_, inOrder, ?_, ?_⟩
  · exact (calls [("start", a), ("value", b)] [("value", b), ("start", a)] (.swap _ _ _) _ _ _).mpr inOrder
  · exact binds [("y", .int 1), ("x", .int 2)] [("x", .int 2), ("y", .int 1)] (.swap _ _ _)
  · exact bindsInOrder (by decide) _ _ rfl rfl

end Eval

end ScriptEngine
