import Mathlib.Data.List.ReduceOption
import ScriptEngine.Eval
import ScriptEngine.Proofs.Local
import ScriptEngine.Proofs.ReadingExpressions
/-!
# The order in which arguments are evaluated

A call that is read keeps its arguments in the order in which they are written. Only where names are given to the arguments of a
builtin, or of a plugin that is known, they are put at the places of their parameters. A call that is run looks for its function,
evaluates its arguments one after the other, each in the machine that the one before it left, and runs the function behind them;
the first argument that gives no value ends it.
-/

namespace ScriptEngine

/-! ## Named arguments at the places of their parameters -/

namespace Signature

variable {α : Type} {s : Signature}

/-- Slots that hold each of some named arguments once, at the place of its parameter. -/
structure Arranges (s : Signature) (args : List (Text × α)) (slots : List (Option (Text × α))) : Prop where
  once : slots.reduceOption.Perm args
  place : ∀ i arg, slots[i]? = some (some arg) → s.paramIndex? arg.1 = some i

theorem perm_reduceOption_set {slots : List (Option α)} {i : Nat} {a : α} (free : slots[i]? = some none) :
    (slots.set i (some a)).reduceOption.Perm (a :: slots.reduceOption) := by
  induction slots generalizing i with
  | nil => cases free
  | cons slot slots ih =>
    cases i with
    | zero =>
      rw [List.getElem?_cons_zero] at free
      cases free
      exact .refl _
    | succ i =>
      rw [List.getElem?_cons_succ] at free
      cases slot with
      | none => exact ih free
      | some b => exact ((ih free).cons b).trans (.swap a b _)

/-- An argument that is put into its slot stands there beside those before it. -/
theorem arranges_fillSlot {args : List (Text × α)} {slots : List (Option (Text × α))} {filled : List (Option α)} {arg : Text × α}
    (h : s.Arranges args slots) (full : slots.length = s.params.length)
    (fills : s.fillSlot (slots.map (Option.map Prod.snd)) arg = .ok filled) :
    ∃ slots', filled = slots'.map (Option.map Prod.snd) ∧ s.Arranges (args ++ [arg]) slots' ∧ slots'.length = s.params.length := by
  unfold fillSlot at fills
  split at fills
  · cases fills
  rename_i i index
  split at fills
  · cases fills
  rename_i free
  cases fills
  have inside : i < slots.length := by
    rw [full]
    exact (List.findIdx?_eq_some_iff_getElem.mp index).1
  have open' : slots[i]? = some none := by
    rw [List.getElem?_map, List.getElem?_eq_getElem inside] at free
    rw [List.getElem?_eq_getElem inside]
    cases slot : slots[i] with
    | none => rfl
    | some b => exact absurd (by rw [slot]; rfl) (free b.2)
  refine ⟨slots.set i (some arg), by rw [List.map_set]; rfl, ⟨?_, fun j b lies => ?_⟩, by rw [List.length_set, full]⟩
  · exact (perm_reduceOption_set open').trans ((h.once.cons arg).trans (List.perm_append_singleton arg args).symm)
  · rw [List.getElem?_set] at lies
    split at lies
    · rename_i same
      subst same
      cases lies
      exact index
    · exact h.place j b lies

theorem arranges_fillSlots {args done : List (Text × α)} {slots : List (Option (Text × α))} {filled : List (Option α)}
    (h : s.Arranges done slots) (full : slots.length = s.params.length)
    (fills : args.foldlM s.fillSlot (slots.map (Option.map Prod.snd)) = .ok filled) :
    ∃ slots', filled = slots'.map (Option.map Prod.snd) ∧ s.Arranges (done ++ args) slots' := by
  induction args generalizing done slots with
  | nil =>
    cases fills
    exact ⟨slots, rfl, by rwa [List.append_nil]⟩
  | cons arg args ih =>
    rw [List.foldlM_cons] at fills
    cases first : s.fillSlot (slots.map (Option.map Prod.snd)) arg with
    | error e =>
      rw [first] at fills
      cases fills
    | ok one =>
      rw [first] at fills
      obtain ⟨slots', rfl, h', full'⟩ := arranges_fillSlot h full first
      obtain ⟨slots'', rfl, h''⟩ := ih h' full' fills
      exact ⟨slots'', rfl, by rwa [List.append_assoc] at h''⟩

/-- The open slots behind the last argument hold nothing. -/
theorem dropOpen_append (slots : List (Option α)) : ∃ n, slots = dropOpen slots ++ List.replicate n none := by
  refine ⟨(slots.reverse.takeWhile (·.isNone)).length, ?_⟩
  have ended : (slots.reverse.takeWhile (·.isNone)) = List.replicate (slots.reverse.takeWhile (·.isNone)).length none :=
    List.eq_replicate_of_mem fun slot inside => Option.isNone_iff_eq_none.mp (List.mem_takeWhile_imp inside)
  rw [dropOpen]
  nth_rewrite 1 [← slots.reverse_reverse, ← List.takeWhile_append_dropWhile (p := (·.isNone)) (l := slots.reverse)]
  rw [List.reverse_append]
  nth_rewrite 1 [ended]
  rw [List.reverse_replicate]

theorem arranges_dropOpen {args : List (Text × α)} {slots : List (Option (Text × α))} (h : s.Arranges args slots) :
    s.Arranges args (dropOpen slots) := by
  obtain ⟨n, all⟩ := dropOpen_append slots
  constructor
  · have once := h.once
    rw [all, List.reduceOption_append, List.reduceOption_replicate_none, List.append_nil] at once
    exact once
  · intro i arg lies
    refine h.place i arg ?_
    rw [all, List.getElem?_append_left (List.getElem?_eq_some_iff.mp lies).1]
    exact lies

theorem map_dropOpen {β : Type} (f : α → β) (slots : List (Option α)) :
    dropOpen (slots.map (Option.map f)) = (dropOpen slots).map (Option.map f) := by
  have same : ((·.isNone) : Option β → Bool) ∘ Option.map f = (·.isNone) := by
    funext slot
    exact Option.isNone_map
  rw [dropOpen, dropOpen, ← List.map_reverse, List.dropWhile_map, same, List.map_reverse]

/-- Arranged arguments stand at the places of their parameters. -/
theorem arranges_arrange {args : List (Text × α)} {filled : List (Option α)} (h : s.arrange args = .ok filled) :
    ∃ slots, filled = slots.map (Option.map Prod.snd) ∧ s.Arranges args slots := by
  unfold arrange at h
  cases all : args.foldlM s.fillSlot (List.replicate s.params.length none) with
  | error e =>
    rw [all] at h
    cases h
  | ok slots =>
    rw [all] at h
    dsimp only [bind, Except.bind] at h
    have free : s.Arranges [] (List.replicate s.params.length (none : Option (Text × α))) := by
      refine ⟨by rw [List.reduceOption_replicate_none], fun i arg lies => ?_⟩
      rw [List.getElem?_replicate] at lies
      split at lies <;> cases lies
    have none : List.replicate s.params.length none =
        (List.replicate s.params.length (none : Option (Text × α))).map (Option.map Prod.snd) := by
      rw [List.map_replicate, Option.map_none]
    rw [none] at all
    obtain ⟨slots', rfl, arranged⟩ := arranges_fillSlots free List.length_replicate all
    split at h
    · cases h
    · cases h
      exact ⟨dropOpen slots', map_dropOpen _ _, arranges_dropOpen arranged⟩

end Signature

/-! ## What is written in the parentheses of a call -/

namespace Parser

/-- A token behind the current one. -/
def tokenAt (s : ParseState) (k : Nat) : Token := (s.tokens.drop k).head?.getD s.last

/-- The state behind some tokens. -/
def past (s : ParseState) (k : Nat) : ParseState := { s with tokens := s.tokens.drop k }

/-- An argument of a call, behind the current token: an expression, or an expression after a name. -/
inductive WrittenArgument (reader : Reader) : ParseState → Option Text × Expr → ParseState → Prop
  | plain {s t : ParseState} {e : Expr} (unnamed : ¬((tokenAt s 1).kind = .ident ∧ (tokenAt s 2).kind = .assign))
    (read : (reader (.expr lowest)).run.run (past s 1) = (some e, t)) : WrittenArgument reader s (none, e) t
  | named {s t : ParseState} {e : Expr} (name : (tokenAt s 1).kind = .ident) (equals : (tokenAt s 2).kind = .assign)
    (read : (reader (.expr lowest)).run.run (past s 3) = (some e, t)) :
    WrittenArgument reader s (some (tokenAt s 1).literal.lower, e) t

/-- Arguments with commas between them, up to the closing parenthesis. -/
inductive WrittenArguments (reader : Reader) : ParseState → List (Option Text × Expr) → ParseState → Prop
  | last {s t : ParseState} {a : Option Text × Expr} (first : WrittenArgument reader s a t) (close : (tokenAt t 1).kind = .rparen) :
    WrittenArguments reader s [a] (past t 1)
  | next {s t u : ParseState} {a : Option Text × Expr} {more : List (Option Text × Expr)} (first : WrittenArgument reader s a t)
    (comma : (tokenAt t 1).kind = .comma) (others : WrittenArguments reader (past t 1) more u) : WrittenArguments reader s (a :: more) u

/-- What is written in the parentheses of a call, from the opening one to the closing one. -/
inductive Parenthesized (reader : Reader) : ParseState → List (Option Text × Expr) → ParseState → Prop
  | nothing {s : ParseState} (close : (tokenAt s 1).kind = .rparen) : Parenthesized reader s [] (past s 1)
  | some {s u : ParseState} {written : List (Option Text × Expr)} (arguments : WrittenArguments reader s written u) :
    Parenthesized reader s written u

/-- In which order a call evaluates what is written in its parentheses: as it is written, unless names are given to the
arguments of a builtin or plugin that is known. These stand at the places of their parameters, and nothing stands at the place
of one that is left out. -/
inductive Evaluated (c : Catalog) (function : Text) : List (Option Text × Expr) → List (Option Expr) → Prop
  | asWritten {written : List (Option Text × Expr)}
    (free : function.contains "." = false ∨ Catalog.find? c function.lower = none ∨ ∀ w ∈ written, w.1 = none) :
    Evaluated c function written (written.map fun w => Option.some w.2)
  | byParameter {s : Signature} {written : List (Text × Expr)} {slots : List (Option (Text × Expr))}
    (dotted : function.contains "." = true) (known : Catalog.find? c function.lower = Option.some s)
    (arranged : s.Arranges written slots) :
    Evaluated c function (written.map fun w => (Option.some w.1, w.2)) (slots.map (Option.map Prod.snd))

variable {α β : Type} {c : Catalog} {reader : Reader} {s u : ParseState}

/-- Each of the arguments is evaluated once. -/
theorem Evaluated.once {function : Text} {written : List (Option Text × Expr)} {slots : List (Option Expr)}
    (h : Evaluated c function written slots) : slots.reduceOption.Perm (written.map Prod.snd) := by
  cases h with
  | asWritten free =>
    have same : (written.map fun w => some w.2).reduceOption = written.map Prod.snd := by
      rw [List.reduceOption, List.filterMap_map]
      exact congrFun List.filterMap_eq_map' written
    rw [same]
  | byParameter dotted known arranged =>
    rw [List.reduceOption_map, List.map_map]
    exact arranged.once.map Prod.snd

theorem tokenAt_past (s : ParseState) (j k : Nat) : tokenAt (past s j) k = tokenAt s (j + k) := by
  rw [tokenAt, tokenAt, past, List.drop_drop]

theorem past_past (s : ParseState) (j k : Nat) : past (past s j) k = past s (j + k) := by
  rw [past, past, past, List.drop_drop]

theorem run_bind_some {x : ParseM α} {f : α → ParseM β} {b : β} (h : (x >>= f).run.run s = (some b, u)) :
    ∃ a t, x.run.run s = (some a, t) ∧ (f a).run.run t = (some b, u) := by
  rw [OptionT.run_bind, Option.elimM, StateT.run_bind] at h
  cases first : x.run.run s with
  | mk r t =>
    rw [first] at h
    cases r with
    | none => cases h
    | some a => exact ⟨a, t, rfl, h⟩

theorem run_advance_bind (f : Unit → ParseM α) : (advance >>= f).run.run s = (f ()).run.run (past s 1) := rfl

theorem run_current_bind (f : Token → ParseM α) : (current >>= f).run.run s = (f (tokenAt s 0)).run.run s := rfl

theorem run_peekIs_bind (k : Token.Kind) (f : Bool → ParseM α) :
    (peekIs k >>= f).run.run s = (f (decide ((tokenAt s 1).kind = k))).run.run s := rfl

/-- Only the token that must come next is passed. -/
theorem run_expect_some {k : Token.Kind} (h : (expect k).run.run s = (some (), u)) : (tokenAt s 1).kind = k ∧ u = past s 1 := by
  rw [expect, run_peekIs_bind] at h
  split at h
  · rename_i here
    cases h
    exact ⟨of_decide_eq_true here, rfl⟩
  · unfold unexpectedPeek fault at h
    obtain ⟨t, s', -, h⟩ := run_bind_some h
    split at h
    all_goals
      obtain ⟨-, s'', -, h⟩ := run_bind_some h
      cases h

/-- The rest of the arguments behind one of them. -/
def behind (reader : Reader) (n : Nat) (args : List Expr) (names : List Text) : ParseM (List Expr × List Text) := do
  if ← peekIs .comma then
    advance
    moreArgs reader n args names
  else
    expect .rparen
    pure (args.reverse, names.reverse)

/-- The first of the arguments is read, with its name if it has one. No argument may have a name unless all have one. -/
theorem argument_of_moreArgs {n : Nat} {args : List Expr} {names : List Text} {r : List Expr × List Text}
    (read : (moreArgs reader (n + 1) args names).run.run s = (some r, u)) :
    ∃ label e t, WrittenArgument reader s (label, e) t ∧ (if label.isSome then names = [] → args = [] else names = []) ∧
      (behind reader n (e :: args) (label.toList ++ names)).run.run t = (some r, u) := by
  rw [moreArgs, run_advance_bind, run_current_bind, run_peekIs_bind, tokenAt_past, tokenAt_past] at read
  by_cases named : (tokenAt s 1).kind = .ident ∧ (tokenAt s 2).kind = .assign
  · simp only [named.1, named.2, decide_true, Bool.and_self, if_true] at read
    split at read
    · obtain ⟨_, t, failed, -⟩ := run_bind_some read
      cases failed
    · rename_i apart
      rw [run_advance_bind, run_advance_bind, past_past, past_past] at read
      obtain ⟨e, t, first, read⟩ := run_bind_some read
      exact ⟨some (tokenAt s 1).literal.lower, e, t, .named named.1 named.2 first, fun none => by simpa [none] using apart, read⟩
  · have unnamed : (decide ((tokenAt s 1).kind = .ident) && decide ((tokenAt s 2).kind = .assign)) = false := by
      simpa using named
    simp only [unnamed, Bool.false_eq_true, if_false] at read
    split at read
    · obtain ⟨_, t, failed, -⟩ := run_bind_some read
      cases failed
    · rename_i apart
      obtain ⟨e, t, first, read⟩ := run_bind_some read
      exact ⟨none, e, t, .plain named first, by simpa using apart, read⟩

/-- An argument that is written is read, when all have names or none has. -/
theorem goes_moreArgs {n : Nat} {args : List Expr} {names : List Text} {label : Option Text} {e : Expr} {t : ParseState}
    (first : WrittenArgument reader s (label, e) t) (apart : if label.isSome then names = [] → args = [] else names = []) :
    Goes (moreArgs reader (n + 1) args names) s (behind reader n (e :: args) (label.toList ++ names)) t := by
  unfold Goes
  rw [moreArgs, run_advance_bind, run_current_bind, run_peekIs_bind, tokenAt_past, tokenAt_past]
  cases first with
  | plain unnamed read =>
    have unnamed : (decide ((tokenAt s 1).kind = .ident) && decide ((tokenAt s 2).kind = .assign)) = false := by
      simpa using unnamed
    obtain rfl : names = [] := by simpa using apart
    simp only [unnamed, Bool.false_eq_true, if_false, List.isEmpty_nil, Bool.not_true]
    exact Goes.bind read _
  | named name equals read =>
    have apart : (!args.isEmpty && names.isEmpty) = false := by
      cases names with
      | nil =>
        obtain rfl : args = [] := apart rfl
        rfl
      | cons => exact Bool.and_false _
    simp only [name, equals, decide_true, Bool.and_self, if_true, apart, Bool.false_eq_true, if_false]
    rw [run_advance_bind, run_advance_bind, past_past, past_past]
    exact Goes.bind read _

/-- The arguments that are read are those that are written, in their order, and either none or all of them have names. -/
theorem written_of_moreArgs {n : Nat} {args : List Expr} {names : List Text} {r : List Expr × List Text}
    (read : (moreArgs reader n args names).run.run s = (some r, u)) :
    ∃ written, WrittenArguments reader s written u ∧ r.1 = args.reverse ++ written.map Prod.snd ∧
      ((names = [] ∧ r.2 = [] ∧ ∀ w ∈ written, w.1 = none) ∨
        (names = [] → args = []) ∧ ∃ labels, r.2 = names.reverse ++ labels ∧ written.map Prod.fst = labels.map some) := by
  induction n generalizing s args names with
  | zero => cases read
  | succ n ih =>
    obtain ⟨label, e, t, first, mixed, read⟩ := argument_of_moreArgs read
    rw [behind, run_peekIs_bind] at read
    split at read
    · rename_i comma
      rw [run_advance_bind] at read
      obtain ⟨more, others, exprs, labels⟩ := ih read
      refine ⟨(label, e) :: more, .next first (of_decide_eq_true comma) others, ?_, ?_⟩
      · rw [exprs, List.reverse_cons, List.append_assoc]
        rfl
      · cases label with
        | none =>
          obtain rfl : names = [] := by simpa using mixed
          obtain ⟨-, none, unnamed⟩ | ⟨none, -⟩ := labels
          · exact .inl ⟨rfl, none, List.forall_mem_cons.mpr ⟨rfl, unnamed⟩⟩
          · cases none rfl
        | some l =>
          obtain ⟨none, -⟩ | ⟨-, labels, given, all⟩ := labels
          · cases none
          · refine .inr ⟨by simpa using mixed, l :: labels, ?_, by rw [List.map_cons, all]; rfl⟩
            rw [given, Option.toList_some, List.singleton_append, List.reverse_cons, List.append_assoc]
            rfl
    · obtain ⟨⟨⟩, t', passed, read⟩ := run_bind_some read
      obtain ⟨close, rfl⟩ := run_expect_some passed
      cases read
      refine ⟨[(label, e)], .last first close, List.reverse_cons .., ?_⟩
      cases label with
      | none =>
        obtain rfl : names = [] := by simpa using mixed
        exact .inl ⟨rfl, rfl, by simp⟩
      | some l => exact .inr ⟨by simpa using mixed, [l], List.reverse_cons .., rfl⟩

/-- A call with arguments in some slots, and null in those that are empty. -/
def HoldsSlots (slots : List (Option Expr)) : Expr → Prop
  | .call _ _ args _ _ _ => ∃ gap, args = slots.map fun slot => slot.getD (.null gap)
  | _ => False

theorem eq_zip_of_labels {names : List Text} {written : List (Option Text × Expr)} (labels : written.map Prod.fst = names.map some) :
    written = (names.zip (written.map Prod.snd)).map fun w => (some w.1, w.2) := by
  induction written generalizing names with
  | nil => rw [List.map_nil, List.zip_nil_right, List.map_nil]
  | cons w written ih =>
    cases names with
    | nil => cases labels
    | cons name names =>
      rw [List.map_cons, List.map_cons, List.cons.injEq] at labels
      rw [List.map_cons, List.zip_cons_cons, List.map_cons, ← ih labels.2, ← labels.1]

theorem map_snd_eq (written : List (Option Text × Expr)) (gap : Mark) :
    written.map Prod.snd = (written.map fun w => some w.2).map fun slot => slot.getD (.null gap) := by
  rw [List.map_map]
  rfl

theorem holds_positionalArgs {sig : Signature} {m : Mark} {args : List Expr} {names : List Text} {function : Text}
    {written : List (Option Text × Expr)} (dotted : function.contains "." = true) (known : Catalog.find? c function.lower = some sig)
    (labels : (names = [] ∧ ∀ w ∈ written, w.1 = none) ∨ written.map Prod.fst = names.map some)
    (placed : positionalArgs sig m (written.map Prod.snd) names = .ok args) :
    ∃ slots, Evaluated c function written slots ∧ args = slots.map fun slot => slot.getD (.null ⟨"null", m.line⟩) := by
  unfold positionalArgs at placed
  split at placed
  · rename_i none
    cases placed
    obtain rfl := List.isEmpty_iff.mp none
    refine ⟨_, .asWritten (.inr (.inr ?_)), ?_⟩
    · obtain ⟨-, unnamed⟩ | labels := labels
      · exact unnamed
      · obtain rfl := List.map_eq_nil_iff.mp labels
        rintro _ ⟨⟩
    · exact map_snd_eq written _
  · rename_i some
    obtain labels := labels.resolve_left fun unnamed => some (List.isEmpty_iff.mpr unnamed.1)
    cases arranged : sig.arrange (names.zip (written.map Prod.snd)) with
    | error e =>
      rw [arranged] at placed
      cases placed
    | ok filled =>
      rw [arranged] at placed
      cases placed
      obtain ⟨slots, rfl, arranges⟩ := Signature.arranges_arrange arranged
      refine ⟨slots.map (Option.map Prod.snd), ?_, rfl⟩
      rw [eq_zip_of_labels labels]
      exact .byParameter dotted known arranges

/-- A call that is checked keeps what is written, in the order in which it is evaluated. -/
theorem evaluated_of_resolveCall {m : Mark} {names : List Text} {function : Text} {e : Expr} {written : List (Option Text × Expr)}
    (dotted : function.contains "." = true)
    (labels : (names = [] ∧ ∀ w ∈ written, w.1 = none) ∨ written.map Prod.fst = names.map some)
    (read : (resolveCall c m function (written.map Prod.snd) names).run.run s = (some e, u)) :
    u = s ∧ ∃ slots, Evaluated c function written slots ∧ HoldsSlots slots e := by
  unfold resolveCall at read
  dsimp only at read
  split at read
  · rename_i unknown
    split at read
    · cases read
      exact ⟨rfl, _, .asWritten (.inr (.inl unknown)), default, map_snd_eq written _⟩
    · cases read
  · rename_i sig known
    split at read
    · cases read
    rename_i args placed
    obtain ⟨state, t, got, read⟩ := run_bind_some read
    cases got
    split at read
    · cases read
    split at read
    · cases read
    cases read
    obtain ⟨slots, evaluated, rfl⟩ := holds_positionalArgs dotted known labels placed
    exact ⟨rfl, slots, evaluated, _, rfl⟩

/-- The call that is made of what is read keeps it, in the order in which it is evaluated. -/
theorem evaluated_of_made {m : Mark} {names : List Text} {function : Text} {e : Expr} {written : List (Option Text × Expr)}
    (labels : (names = [] ∧ ∀ w ∈ written, w.1 = none) ∨ written.map Prod.fst = names.map some)
    (read : (if function.contains "." then resolveCall c m function (written.map Prod.snd) names
      else pure (.call m function (written.map Prod.snd) names false "")).run.run s = (some e, u)) :
    u = s ∧ ∃ slots, Evaluated c function written slots ∧ HoldsSlots slots e := by
  split at read
  · rename_i dotted
    exact evaluated_of_resolveCall dotted labels read
  · rename_i undotted
    cases read
    exact ⟨rfl, _, .asWritten (.inl (Bool.eq_false_iff.mpr undotted)), default, map_snd_eq written _⟩

/-- A call that is read keeps what is written in its parentheses, in the order in which it is evaluated. -/
theorem evaluated_of_call {function e : Expr} (read : (call c reader function).run.run s = (some e, u)) :
    ∃ mark name written slots, function = .name mark name ∧ Parenthesized reader s written u ∧ Evaluated c name written slots ∧
      HoldsSlots slots e := by
  unfold call at read
  obtain ⟨m, t, marked, read⟩ := run_bind_some read
  cases marked
  cases function with
  | name mark name =>
    rw [run_peekIs_bind] at read
    dsimp only at read
    by_cases close : (tokenAt s 1).kind = .rparen
    · rw [if_pos (decide_eq_true close), run_advance_bind] at read
      have unnamed : ∀ w ∈ ([] : List (Option Text × Expr)), w.1 = none := by rintro _ ⟨⟩
      obtain ⟨rfl, slots, evaluated, holds⟩ := evaluated_of_made (.inl ⟨rfl, unnamed⟩) read
      exact ⟨mark, name, _, slots, rfl, .nothing close, evaluated, holds⟩
    · rw [if_neg (by simpa using close)] at read
      obtain ⟨n, t, got, read⟩ := run_bind_some read
      cases got
      obtain ⟨⟨args, names⟩, t, given, read⟩ := run_bind_some read
      obtain ⟨written, arguments, exprs, labels⟩ := written_of_moreArgs given
      obtain rfl : args = written.map Prod.snd := exprs
      have labels : (names = [] ∧ ∀ w ∈ written, w.1 = none) ∨ written.map Prod.fst = names.map some := by
        obtain ⟨-, none, unnamed⟩ | ⟨-, labels, rfl, all⟩ := labels
        · exact .inl ⟨none, unnamed⟩
        · exact .inr all
      obtain ⟨rfl, slots, evaluated, holds⟩ := evaluated_of_made labels read
      exact ⟨mark, name, written, slots, rfl, .some arguments, evaluated, holds⟩
  | _ => cases read

end Parser

/-! ## Arguments are evaluated one after the other -/

namespace Eval

/-- Arguments are evaluated one after the other, each in the machine that the one before it left. Where none stands, the value
is null, and the machine stays as it is. -/
inductive InTurn (rec : Runner) : List (Option Expr) → Machine → List Value → Machine → Prop
  | none {m : Machine} : InTurn rec [] m [] m
  | open {m m' : Machine} {slots : List (Option Expr)} {vs : List Value} (others : InTurn rec slots m vs m') :
    InTurn rec (.none :: slots) m (.null :: vs) m'
  | next {m m' m'' : Machine} {e : Expr} {v : Value} {slots : List (Option Expr)} {vs : List Value}
    (first : rec (.expr e) m = .done v m') (others : InTurn rec slots m' vs m'') : InTurn rec (some e :: slots) m (v :: vs) m''

/-- What comes of some arguments and of what is done with their values. All are evaluated one after the other, and then their
values are used; or one of them gives no value, and the whole ends as that one does. -/
inductive TakesTurns (rec : Runner) (slots : List (Option Expr)) (after : List Value → Exec Value) (m : Machine) (o : Outcome Value) : Prop
  | all {vs : List Value} {m' : Machine} (values : InTurn rec slots m vs m') (ends : o = after vs m')
  | upTo {before later : List (Option Expr)} {e : Expr} {vs : List Value} {m' : Machine} (here : slots = before ++ some e :: later)
    (values : InTurn rec before m vs m') (stops : ∀ v k, rec (.expr e) m' ≠ .done v k) (ends : o = rec (.expr e) m')

variable {rec : Runner} {e : Expr} {es : List Expr} {v : Value} {m m' : Machine}

theorem evaluateAll_cons_done (first : rec (.expr e) m = .done v m') (after : List Value → Exec Value) :
    (evaluateAll rec (e :: es) >>= after) m = (evaluateAll rec es >>= fun vs => after (v :: vs)) m' := by
  simp only [evaluateAll, bind_assoc, pure_bind]
  exact Exec.bind_of_done first

theorem evaluateAll_cons_stops (stops : ∀ v k, rec (.expr e) m ≠ .done v k) (after : List Value → Exec Value) :
    (evaluateAll rec (e :: es) >>= after) m = rec (.expr e) m := by
  rw [evaluateAll, bind_assoc]
  show Exec.andThen (rec (.expr e)) _ m = _
  unfold Exec.andThen
  cases first : rec (.expr e) m with
  | done v k => exact absurd first (stops v k)
  | failed f k => rfl
  | crashed why k => rfl
  | outOfFuel => rfl

/-- Arguments are evaluated in turn. -/
theorem takesTurns_evaluateAll (nulls : ∀ mark m, rec (.expr (.null mark)) m = .done .null m) (slots : List (Option Expr)) (gap : Mark)
    (after : List Value → Exec Value) (m : Machine) :
    TakesTurns rec slots after m ((evaluateAll rec (slots.map fun slot => slot.getD (.null gap)) >>= after) m) := by
  induction slots generalizing after m with
  | nil => exact .all .none rfl
  | cons slot slots ih =>
    rw [List.map_cons]
    cases slot with
    | none =>
      rw [Option.getD_none, evaluateAll_cons_done (nulls gap m)]
      obtain ⟨values, ends⟩ | ⟨here, values, stops, ends⟩ := ih (fun vs => after (.null :: vs)) m
      · exact .all (.open values) ends
      · subst here
        exact .upTo rfl (.open values) stops ends
    | some e =>
      rw [Option.getD_some]
      by_cases first : ∃ v k, rec (.expr e) m = .done v k
      · obtain ⟨v, k, first⟩ := first
        rw [evaluateAll_cons_done first]
        obtain ⟨values, ends⟩ | ⟨here, values, stops, ends⟩ := ih (fun vs => after (v :: vs)) k
        · exact .all (.next first values) ends
        · subst here
          exact .upTo rfl (.next first values) stops ends
      · have stops : ∀ v k, rec (.expr e) m ≠ .done v k := fun v k done => first ⟨v, k, done⟩
        rw [evaluateAll_cons_stops stops]
        exact .upTo rfl .none stops rfl

/-- What a call does with the values of its arguments, or its fault when its name stands for no function. -/
def callee (rec : Runner) (m : Machine) : Expr → Except Fault (List Value → Exec Value)
  | .call mark name _ names isBuiltin result =>
    if isBuiltin then .ok fun vs => builtinCall rec mark.line name vs result
    else
      match m.store.lookup? m.scope name with
      | none => .error ((Fault.badName ("undefined function '" ++ name ++ "'")).atLine mark.line)
      | some (_, b) =>
        match b.value with
        | .function a => .ok fun vs => apply rec (m.store.function a) (m.store.function a).frame vs names mark.line
        | v => .error ((Fault.wrongType ("'" ++ name ++ "' is not a function, got " ++ (m.store.kindOf v).name)).atLine mark.line)
  | e => .error ((Fault.wrongType (e.render ++ " is not callable")).atLine e.line)

/-- A call looks for its function first, and then evaluates its arguments in turn. -/
theorem takesTurns_call (nulls : ∀ mark m, rec (.expr (.null mark)) m = .done .null m) {slots : List (Option Expr)} {e : Expr}
    (holds : Parser.HoldsSlots slots e) (m : Machine) :
    (∀ f, callee rec m e = .error f → expression rec e m = .failed f m) ∧
      ∀ after, callee rec m e = .ok after → TakesTurns rec slots after m (expression rec e m) := by
  cases e with
  | call mark name args names isBuiltin result =>
    obtain ⟨gap, rfl⟩ := holds
    rw [expression, callee]
    cases isBuiltin with
    | true =>
      rw [if_pos rfl, if_pos rfl]
      constructor
      · rintro f ⟨⟩
      · rintro after ⟨⟩
        exact takesTurns_evaluateAll nulls slots gap _ m
    | false =>
      rw [if_neg Bool.false_ne_true, if_neg Bool.false_ne_true, functionCall, Exec.run_get_bind]
      cases m.store.lookup? m.scope name with
      | none =>
        constructor
        · rintro f ⟨⟩
          rfl
        · rintro after ⟨⟩
      | some found =>
        obtain ⟨owner, b⟩ := found
        dsimp only
        cases b.value with
        | function a =>
          constructor
          · rintro f ⟨⟩
          · rintro after ⟨⟩
            exact takesTurns_evaluateAll nulls slots gap _ m
        | _ =>
          constructor
          · rintro f ⟨⟩
            rfl
          · rintro after ⟨⟩
  | _ => cases holds

/-- **Arguments are evaluated in the order in which a call has them.** A call that is read has what is written in its parentheses,
each argument once: in the order in which it is written, or, when names are given to the arguments of a builtin or plugin that is
known, in the order of the parameters. When it is run, its function is looked for first. When there is one, the arguments are
evaluated one after the other, up to the first that gives no value, and the function runs behind them. -/
theorem arguments_in_turn (c : Catalog) (reader : Parser.Reader) {s u : ParseState} {function e : Expr}
    (read : (Parser.call c reader function).run.run s = (some e, u)) :
    ∃ mark name written slots, function = .name mark name ∧ Parser.Parenthesized reader s written u ∧
      Parser.Evaluated c name written slots ∧ slots.reduceOption.Perm (written.map Prod.snd) ∧ ∀ fuel m,
        (∀ f, callee (run (fuel + 1)) m e = .error f → run (fuel + 2) (.expr e) m = .failed f m) ∧
        ∀ after, callee (run (fuel + 1)) m e = .ok after → TakesTurns (run (fuel + 1)) slots after m (run (fuel + 2) (.expr e) m) := by
  obtain ⟨mark, name, written, slots, rfl, isWritten, evaluated, holds⟩ := Parser.evaluated_of_call read
  exact ⟨mark, name, written, slots, rfl, isWritten, evaluated, evaluated.once, fun fuel m => takesTurns_call (fun _ _ => rfl) holds m⟩

/-! ### Names in another order than the parameters -/

/-- The tokens of `print str.substring(start = a, value = b);`. -/
def swappedTokens : List Token :=
  [⟨.kwPrint, "print", 1, 1⟩, ⟨.ident, "str.substring", 1, 7⟩, ⟨.lparen, "(", 1, 20⟩, ⟨.ident, "start", 1, 21⟩,
    ⟨.assign, "=", 1, 27⟩, ⟨.ident, "a", 1, 29⟩, ⟨.comma, ",", 1, 30⟩, ⟨.ident, "value", 1, 32⟩, ⟨.assign, "=", 1, 38⟩,
    ⟨.ident, "b", 1, 40⟩, ⟨.rparen, ")", 1, 41⟩, ⟨.semicolon, ";", 1, 42⟩, ⟨.eof, "", 1, 43⟩]

/-- The parser in front of the arguments. -/
def swappedState : ParseState := Parser.past (Parser.initialState swappedTokens) 2

/-- A name that stands for a variable. -/
def variableNamed (name : Text) : Expr := .name ⟨name, 1⟩ name

/-- The call that is read: the parameter `value` comes before the parameter `start`. -/
def swappedCall : Expr := .call ⟨"(", 1⟩ "str.substring" [variableNamed "b", variableNamed "a"] [] true "string"

theorem first_swapped (c : Catalog) : Parser.WrittenArgument (Parser.read c 9) swappedState (some "start", variableNamed "a")
    (Parser.past swappedState 3) :=
  .named rfl rfl rfl

theorem second_swapped (c : Catalog) : Parser.WrittenArgument (Parser.read c 9) (Parser.past swappedState 4)
    (some "value", variableNamed "b") (Parser.past swappedState 7) :=
  .named rfl rfl rfl

theorem parenthesized_swapped (c : Catalog) :
    Parser.Parenthesized (Parser.read c 9) swappedState [(some "start", variableNamed "a"), (some "value", variableNamed "b")]
      (Parser.past swappedState 8) :=
  .some (.next (first_swapped c) rfl (.last (second_swapped c) rfl))

theorem call_swapped {c : Catalog} (known : Parser.Catalog.find? c "str.substring" =
    some ⟨"str.substring", .string, [⟨"value", .string, true, false⟩, ⟨"start", .int, true, false⟩, ⟨"end", .int, false, false⟩]⟩) :
    Parser.Goes (Parser.call c (Parser.read c 9) (.name ⟨"str.substring", 1⟩ "str.substring")) swappedState (pure swappedCall)
      (Parser.past swappedState 8) := by
  have lower : Text.lower "str.substring" = "str.substring" := by decide
  have dotted : Text.contains "str.substring" "." = true := by decide
  have given : Parser.Goes (Parser.moreArgs (Parser.read c 9) 12 [] []) swappedState
      (pure ([variableNamed "a", variableNamed "b"], ["start", "value"])) (Parser.past swappedState 8) := by
    have comma : Parser.Goes (Parser.behind (Parser.read c 9) 11 [variableNamed "a"] ["start"]) (Parser.past swappedState 3)
      (Parser.moreArgs (Parser.read c 9) 11 [variableNamed "a"] ["start"]) (Parser.past swappedState 4) := rfl
    refine (Parser.goes_moreArgs (first_swapped c) fun _ => rfl).trans (comma.trans ?_)
    refine (Parser.goes_moreArgs (second_swapped c) ?_).trans rfl
    rintro ⟨⟩
  unfold Parser.call
  refine (show Parser.Goes Parser.mark swappedState (pure ⟨"(", 1⟩) swappedState from rfl).andThen ?_
  dsimp only
  refine (show Parser.Goes (Parser.peekIs .rparen) swappedState (pure false) swappedState from rfl).andThen ?_
  rw [if_neg Bool.false_ne_true]
  refine (show Parser.Goes Parser.tokensLeft swappedState (pure 12) swappedState from rfl).andThen ?_
  refine given.andThen ?_
  dsimp only
  rw [if_pos dotted, Parser.resolveCall, lower, known]
  exact rfl

/-- The machine that has run nothing. -/
def freshMachine : Machine := Machine.initial (Host.initial default default) 10 ""

/-- The builtin is known, and the text has no faults. -/
theorem known_swapped : (Parser.Catalog.find? freshMachine.catalog "str.substring" = some ⟨"str.substring", .string,
      [⟨"value", .string, true, false⟩, ⟨"start", .int, true, false⟩, ⟨"end", .int, false, false⟩]⟩) ∧
    (Program.parse freshMachine.catalog "print str.substring(start = a, value = b);").2 = [] := by
  decide +kernel

theorem read_swapped : (Parser.call freshMachine.catalog (Parser.read freshMachine.catalog 9)
    (.name ⟨"str.substring", 1⟩ "str.substring")).run.run swappedState = (some swappedCall, Parser.past swappedState 8) :=
  call_swapped known_swapped.1

/-- A call with names in another order than the parameters. -/
theorem arguments_in_turn_named :
    (Parser.call freshMachine.catalog (Parser.read freshMachine.catalog 9) (.name ⟨"str.substring", 1⟩ "str.substring")).run.run
        swappedState = (some swappedCall, Parser.past swappedState 8) ∧
      ∃ mark name written slots, Expr.name ⟨"str.substring", 1⟩ "str.substring" = .name mark name ∧
        Parser.Parenthesized (Parser.read freshMachine.catalog 9) swappedState written (Parser.past swappedState 8) ∧
        Parser.Evaluated freshMachine.catalog name written slots ∧ slots.reduceOption.Perm (written.map Prod.snd) ∧ ∀ fuel m,
          (∀ f, callee (run (fuel + 1)) m swappedCall = .error f → run (fuel + 2) (.expr swappedCall) m = .failed f m) ∧
          ∀ after, callee (run (fuel + 1)) m swappedCall = .ok after →
            TakesTurns (run (fuel + 1)) slots after m (run (fuel + 2) (.expr swappedCall) m) :=
  ⟨read_swapped, arguments_in_turn freshMachine.catalog (Parser.read freshMachine.catalog 9) read_swapped⟩

/-- The first argument that is written is not the first that is evaluated: in a text without faults, of two arguments that both
fail, the call fails as the second one does. -/
theorem arguments_by_parameter :
    (Token.scan "print str.substring(start = a, value = b);").1 = swappedTokens ∧
      (Program.parse freshMachine.catalog "print str.substring(start = a, value = b);").2 = [] ∧
      (Parser.call freshMachine.catalog (Parser.read freshMachine.catalog 9) (.name ⟨"str.substring", 1⟩ "str.substring")).run.run
        swappedState = (some swappedCall, Parser.past swappedState 8) ∧
      Parser.Parenthesized (Parser.read freshMachine.catalog 9) swappedState
        [(some "start", variableNamed "a"), (some "value", variableNamed "b")] (Parser.past swappedState 8) ∧
      (∃ f m, run 1 (.expr (variableNamed "a")) freshMachine = .failed f m ∧ f.message = "undefined variable 'a'") ∧
      ∃ f m, run 2 (.expr swappedCall) freshMachine = .failed f m ∧ f.message = "undefined variable 'b'" :=
  ⟨by decide +kernel, known_swapped.2, read_swapped, parenthesized_swapped _, ⟨_, _, rfl, rfl⟩, ⟨_, _, rfl, rfl⟩⟩

end Eval

end ScriptEngine
