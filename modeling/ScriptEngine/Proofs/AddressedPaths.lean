import ScriptEngine.Proofs.PathRemoval
/-!
# Paths that address what lies above

A removal at a path writes the steps before the last as a path again, and puts a shorter list there. That path is read as the
same steps: what is written at it lies where these steps lead, and nothing else changes. A path is read by cutting its text into
slices; none of them begins or ends outside the text, and a text that is no path has a fault.
-/

namespace ScriptEngine

namespace Path

/-! ## Reading by slices -/

/-- Reading that may find a fault, and comes to nothing where a text has no such slice or byte. -/
abbrev Slicing := ExceptT BadPath Option

/-- The bytes from one place up to another. -/
def cut (bs : List UInt8) (i j : Nat) : Slicing (List UInt8) :=
  if i ≤ j ∧ j ≤ bs.length then pure ((bs.take j).drop i) else ExceptT.mk none

/-- The byte at a place. -/
def byteAt (bs : List UInt8) (i : Nat) : Slicing UInt8 :=
  match bs[i]? with
  | some b => pure b
  | none => ExceptT.mk none

/-- The places in brackets, cut off one after the other. More rounds than `fuel` come to nothing. -/
def slicedIndices (fuel : Nat) (rest : List UInt8) : Slicing (List Step) := do
  if rest.isEmpty then pure []
  else match fuel with
    | 0 => ExceptT.mk none
    | fuel + 1 => do
      let first ← byteAt rest 0
      match rest.idxOf? 0x5D with
      | none => throw .brackets
      | some stop =>
        if first ≠ 0x5B then throw .brackets
        else
          let number ← cut rest 1 stop
          match wholeNumber? number with
          | none => throw .number
          | some i => do
            let behind ← cut rest (stop + 1) rest.length
            let more ← slicedIndices fuel behind
            pure (.index i :: more)

/-- The steps of a part of a path, whose name ends where brackets begin. -/
def slicedSteps (part : Text) : Slicing (List Step) := do
  let (name, rest) ← match part.bytes.idxOf? 0x5B with
    | none => pure (part.bytes, [])
    | some i => do
      let name ← cut part.bytes 0 i
      let rest ← cut part.bytes i part.bytes.length
      pure (name, rest)
  let more ← slicedIndices rest.length rest
  pure (if name.isEmpty then more else .key ⟨name⟩ :: more)

/-- The steps of a path, or its fault. -/
def sliced (path : Text) : Option (Except Fault (List Step)) := do
  match ← ((path.splitOn ".").mapM slicedSteps).run with
  | .ok steps => some (.ok steps.flatten)
  | .error .brackets => some (.error (Fault.raised Fault.validationError ("invalid json path " ++ path.quoted)))
  | .error .number => some (.error (Fault.raised Fault.validationError ("invalid json path index in " ++ path.quoted)))

section Slices

variable {bs rest : List UInt8} {i j fuel : Nat}

/-- Reading goes on with what was read, unless there was a fault. -/
theorem run_bind_some {α β : Type} {x : Slicing α} {y : Except BadPath α} {f : α → Slicing β} {g : α → Except BadPath β}
    (first : x.run = some y) (onward : ∀ a, (f a).run = some (g a)) : (x >>= f).run = some (y >>= g) := by
  rw [ExceptT.run_bind, first]
  cases y with
  | error e => rfl
  | ok a => exact onward a

/-- A piece of a text is cut out of it where it begins and ends. -/
theorem cut_append (xs zs : List UInt8) {ys : List UInt8} (whole : bs = xs ++ ys ++ zs) (start : i = xs.length)
    (stop : j = xs.length + ys.length) : cut bs i j = pure ys := by
  subst whole start stop
  rw [cut, if_pos ⟨Nat.le_add_right _ _, by simp⟩, ← List.length_append, List.take_left, List.drop_left]

/-- Where a byte is in a text, it parts the text at its first place. -/
theorem idxOf?_cases (b : UInt8) (bs : List UInt8) :
    (bs.idxOf? b = none ∧ bs.takeWhile (· ≠ b) = bs ∧ bs.dropWhile (· ≠ b) = []) ∨
    ∃ before behind, bs = before ++ b :: behind ∧ bs.idxOf? b = some before.length ∧
      bs.takeWhile (· ≠ b) = before ∧ bs.dropWhile (· ≠ b) = b :: behind := by
  induction bs with
  | nil => exact .inl ⟨rfl, rfl, rfl⟩
  | cons a bs ih =>
    by_cases same : a = b
    · subst same
      exact .inr ⟨[], bs, by simp [List.idxOf?_cons]⟩
    rw [List.idxOf?_cons, if_neg (by simpa using same), List.takeWhile_cons, List.dropWhile_cons, if_pos (decide_eq_true same),
      if_pos (decide_eq_true same)]
    rcases ih with ⟨missing, taken, left⟩ | ⟨before, behind, whole, found, taken, left⟩
    · left
      exact ⟨by rw [missing]; rfl, by rw [taken], left⟩
    · right
      exact ⟨a :: before, behind, by rw [whole]; rfl, by rw [found]; rfl, by rw [taken], left⟩

/-- The places in brackets are cut off inside the text, and there are no more of them than bytes. -/
theorem slicedIndices_eq (enough : rest.length ≤ fuel) : (slicedIndices fuel rest).run = some (indices fuel rest) := by
  induction fuel generalizing rest with
  | zero =>
    obtain rfl := List.length_eq_zero_iff.mp (Nat.le_zero.mp enough)
    rfl
  | succ fuel ih =>
    rcases rest with - | ⟨b, bs⟩
    · rfl
    by_cases opens : b = 0x5B
    swap
    · -- the text goes on with no bracket, whether or not one is closed behind it
      have refused : indices (fuel + 1) (b :: bs) = .error .brackets := by
        rw [indices]
        simp [opens]
      rw [refused, slicedIndices]
      cases (b :: bs).idxOf? 0x5D with
      | none => rfl
      | some stop => simp [opens, byteAt]
    subst opens
    rw [slicedIndices, indices]
    rcases idxOf?_cases 0x5D bs with ⟨missing, taken, left⟩ | ⟨before, behind, whole, found, taken, left⟩
    · have place : (0x5B :: bs).idxOf? 0x5D = none := by
        rw [List.idxOf?_cons, if_neg (by decide), missing]
        rfl
      rw [place, left]
      rfl
    · have place : (0x5B :: bs).idxOf? 0x5D = some (before.length + 1) := by
        rw [List.idxOf?_cons, if_neg (by decide), found]
        rfl
      have number : cut (0x5B :: bs) 1 (before.length + 1) = pure before :=
        cut_append [0x5B] (0x5D :: behind) (by rw [whole]; rfl) rfl (Nat.add_comm _ _)
      have onward : cut (0x5B :: bs) (before.length + 1 + 1) (0x5B :: bs).length = pure behind :=
        cut_append (0x5B :: before ++ [0x5D]) [] (by simp [whole]) (by simp) (by simp [whole]; omega)
      have less : behind.length ≤ fuel := by simp [whole] at enough; omega
      have deeper := ih less
      rw [place, taken, left]
      cases read : wholeNumber? before with
      | none => simp [byteAt, number, read]
      | some i =>
        simp only [byteAt, List.getElem?_cons_zero, number, onward, read, pure_bind, List.drop_one, List.tail_cons,
          List.isEmpty_cons, Bool.false_eq_true, if_false, ne_eq, not_true_eq_false, decide_false, Bool.or_false]
        exact run_bind_some deeper fun more => rfl

/-- The steps of a part are cut out of it. -/
theorem slicedSteps_eq (part : Text) : (slicedSteps part).run = some (partSteps part) := by
  unfold slicedSteps partSteps
  rcases idxOf?_cases 0x5B part.bytes with ⟨missing, taken, left⟩ | ⟨before, behind, whole, found, taken, left⟩
  · rw [missing, taken, left]
    dsimp only
    rw [pure_bind]
    exact run_bind_some (slicedIndices_eq (Nat.le_refl _)) fun more => rfl
  · have name : cut part.bytes 0 before.length = pure before :=
      cut_append [] (0x5B :: behind) whole rfl (Nat.zero_add _).symm
    have rest : cut part.bytes before.length part.bytes.length = pure (0x5B :: behind) :=
      cut_append before [] (by rw [whole, List.append_nil]) rfl (by rw [whole, List.length_append])
    rw [found, taken, left]
    dsimp only
    rw [name, rest, pure_bind, pure_bind, pure_bind]
    exact run_bind_some (slicedIndices_eq (Nat.le_refl _)) fun more => rfl

theorem mapM_slicedSteps (parts : List Text) : (parts.mapM slicedSteps).run = some (parts.mapM partSteps) := by
  induction parts with
  | nil => rfl
  | cons part parts ih =>
    rw [List.mapM_cons, List.mapM_cons]
    exact run_bind_some (slicedSteps_eq part) fun steps => run_bind_some ih fun more => rfl

/-- **No slice of a path is out of range**, and reading by slices ends with what the path is read as. -/
theorem sliced_eq (path : Text) : sliced path = some (parse path) := by
  rw [sliced, mapM_slicedSteps, parse]
  dsimp only [bind, Option.bind]
  generalize (path.splitOn ".").mapM partSteps = read
  rcases read with (- | -) | steps <;> rfl

end Slices

end Path

/-! ## Writing where steps lead -/

/-- What a write to where steps lead leaves: other data in the json value when there are no steps, and otherwise what was written
in the place of the last one. All other places hold what they held. Data that contains itself can lead through that place before;
then its containers are put back on the way, and with them what was there. -/
structure Store.Rewritten (s : Store) (box : Nat) (steps : List Path.Step) (v : Node) (t : Store) : Prop where
  root : steps = [] → t = { s with boxes := s.boxes.setIfInBounds box v }
  only : steps ≠ [] → t = { s with objects := t.objects, buffers := t.buffers }
  places : ∀ p, t.at? p =
    if (s.route (s.box box) steps).getLast? = some p ∧ p ∉ (s.route (s.box box) steps).dropLast then some v else s.at? p
  reads : Acc s.Inner (s.box box) → t.follow? (t.box box) steps = some v

/-- What the text of steps is as a path: it reads what the steps lead to, and a write at it is a write there. A removal looks for
a list on its own, and where it finds one that the steps do not lead to, a write at the path is refused and changes nothing. -/
structure Store.Addressed (s : Store) (box : Nat) (steps : List Path.Step) (v : Node) : Prop where
  read : s.pathGet? (s.box box) (Path.render steps) = s.follow? (s.box box) steps
  written : ∀ n, s.follow? (s.box box) steps = some n →
    ∃ t, (StoreM.pathSet box (Path.render steps) v).run.run s = (.ok (), t) ∧ s.Rewritten box steps v t
  refused : s.follow? (s.box box) steps = none → ∀ b len, s.parentOf? (s.box box) steps = some (.list b len) →
    ∃ f, (StoreM.pathSet box (Path.render steps) v).run.run s = (.error f, s)

namespace StoreM

variable {s t : Store} {n m v : Node} {b len box : Nat} {path : Text} {steps : List Path.Step}

/-- A removal that finds a list has come to it as the steps lead; or some step is wrong for a container on its way, and a write
along the steps is refused there. -/
theorem parentOf?_cases (found : s.parentOf? n steps = some (.list b len)) (v : Node) : s.follow? n steps = some (.list b len) ∨
    s.follow? n steps = none ∧ ∃ f, (setAlong n steps v).run.run s = (.error f, s) := by
  induction steps generalizing n with
  | nil => exact .inl found
  | cons step rest ih =>
    cases n with
    | object a =>
      cases step with
      | index i => exact .inr ⟨rfl, _, rfl⟩
      | key k =>
        cases lies : Json.lookup k (s.object a) with
        | none =>
          rw [Store.parentOf?, Path.Step.keyOf, lies, Option.getD_none] at found
          cases rest <;> cases found
        | some x =>
          rw [Store.parentOf?, Path.Step.keyOf, lies, Option.getD_some] at found
          have onward : s.follow? (.object a) (.key k :: rest) = s.follow? x rest := by
            rw [Store.follow?_cons, Store.stepInto?, lies, Option.bind_some]
          rw [onward]
          obtain leads | ⟨nothing, f, below⟩ := ih found
          · exact .inl leads
          refine .inr ⟨nothing, f, ?_⟩
          rw [run_setAlong_object, lies, Option.getD_some, ExceptT.run_bind, StateT.run_bind, below]
          rfl
    | list b₀ len₀ =>
      cases step with
      | key k => exact .inr ⟨rfl, _, rfl⟩
      | index i =>
        rw [Store.parentOf?, Path.Step.indexOf] at found
        split at found
        · cases found
        rename_i inside
        rw [Bool.or_eq_true, decide_eq_true_eq, decide_eq_true_eq, not_or] at inside
        obtain ⟨j, rfl⟩ := Int.eq_ofNat_of_zero_le (Int.not_lt.mp inside.1)
        have less : j < len₀ := by omega
        have lies : (s.items b₀ len₀)[j]? = (s.buffer b₀)[j]? := by
          rw [Store.items, List.getElem?_take, if_pos less, Array.getElem?_toList]
        rw [Int.toNat_natCast, lies] at found
        cases here : (s.buffer b₀)[j]? with
        | none =>
          rw [here, Option.getD_none] at found
          cases rest <;> cases found
        | some x =>
          rw [here, Option.getD_some] at found
          have onward : s.follow? (.list b₀ len₀) (.index j :: rest) = s.follow? x rest := by
            rw [Store.follow?_cons, Store.stepInto?_eq, Node.place?_item less, Option.bind_some, Store.at?, here, Option.bind_some]
          rw [onward]
          obtain leads | ⟨nothing, f, below⟩ := ih found
          · exact .inl leads
          refine .inr ⟨nothing, f, ?_⟩
          rw [run_setAlong_list, if_neg (by simp; omega), if_neg (by omega), Int.toNat_natCast, setItem, run_get_bind]
          dsimp only
          rw [here, Option.getD_some, ExceptT.run_bind, StateT.run_bind, below]
          rfl
    | _ => cases found

/-- A write at the text of steps goes where they lead. -/
theorem addressed (whole : s.Whole) (inside : box < s.boxes.size) (valid : v.In s)
    (parsed : Path.parse (Path.render steps) = .ok steps) : s.Addressed box steps v := by
  refine ⟨Store.pathGet?_of_parse parsed, fun n found => ?_, fun nothing b len walked => ?_⟩
  · by_cases goes : steps = []
    · subst goes
      have here : Store.box { s with boxes := s.boxes.setIfInBounds box v } box = v := by
        rw [Store.box, Array.getElem?_setIfInBounds_self_of_lt inside, Option.getD_some]
      exact ⟨_, rfl, fun _ => rfl, fun other => absurd rfl other, fun p => rfl, fun _ => congrArg some here⟩
    · obtain ⟨t, along, run, only, places⟩ := run_pathSet_route whole inside valid parsed goes found
      refine ⟨t, run, fun none => absurd none goes, fun _ => only, places, fun ends => ?_⟩
      obtain ⟨t', run', -, read, -⟩ := run_pathSet_found whole inside valid parsed goes (Store.route_nodup ends steps) found
      cases run.symm.trans run'
      have kept : t.box box = s.box box := by rw [only]; rfl
      rw [kept]
      exact read
  · obtain found | ⟨-, f, along⟩ := parentOf?_cases walked v
    · cases nothing.symm.trans found
    · obtain - | ⟨step, rest⟩ := steps
      · cases nothing
      refine ⟨f, ?_⟩
      unfold pathSet
      rw [parsed]
      dsimp only
      rw [run_get_bind, ExceptT.run_bind, StateT.run_bind, along]
      rfl

end StoreM

namespace Path

/-- **Texts as paths, and the paths above them.** No slice of a text is out of range when it is read as a path, and it is read as
steps or refused with a validation error. The text of the first of these steps, however many, is read as just those; so it reads
what they lead to, and what is written at it lies there. -/
theorem parse_addresses (path : Text) : sliced path = some (parse path) ∧
    ((∃ message, parse path = .error (Fault.raised Fault.validationError message)) ∨
      ∃ steps, parse path = .ok steps ∧ ∀ above, above <+: steps → parse (render above) = .ok above ∧
        ∀ (s : Store) (box : Nat) (v : Node), s.Whole → box < s.boxes.size → v.In s → s.Addressed box above v) := by
  refine ⟨sliced_eq path, ?_⟩
  cases parsed : parse path with
  | ok steps =>
    refine .inr ⟨steps, rfl, fun above begins => ?_⟩
    have reads := parse_render_prefix parsed begins
    exact ⟨reads, fun s box v whole inside valid => StoreM.addressed whole inside valid reads⟩
  | error f =>
    unfold parse at parsed
    split at parsed
    · cases parsed
    all_goals
      cases parsed
      exact .inl ⟨_, rfl⟩

/-- A row of a table that becomes shorter: it is written at the path of the row, behind a sign and a zero that its text has no
more. -/
theorem parse_addresses_row : ∃ s t : Store, sliced "rows..[+01][0]" = some (.ok [.key "rows", .index 1, .index 0]) ∧
    parse (render [.key "rows", .index 1]) = .ok [.key "rows", .index 1] ∧
    (StoreM.pathSet 0 (render [.key "rows", .index 1]) (.list 2 1)).run.run s = (.ok (), t) ∧
    s.at? (.item 0 1) = some (.list 2 2) ∧ t.at? (.item 0 1) = some (.list 2 1) ∧
    ∀ p, p ≠ .item 0 1 → t.at? p = s.at? p := by
  let s : Store := { Store.initial with
    boxes := #[.object 0], objects := #[[("rows", .list 0 2)]], buffers := #[#[.list 1 1, .list 2 2], #[.int 1], #[.int 2, .int 3]] }
  obtain ⟨same, read⟩ := parse_addresses "rows..[+01][0]"
  have parsed : parse "rows..[+01][0]" = .ok [.key "rows", .index 1, .index 0] := rfl
  obtain ⟨message, refused⟩ | ⟨steps, read, above⟩ := read
  · cases parsed.symm.trans refused
  cases parsed.symm.trans read
  obtain ⟨again, addressed⟩ := above [.key "rows", .index 1] ⟨[.index 0], rfl⟩
  obtain ⟨t, run, written⟩ := (addressed s 0 (.list 2 1) (by decide) Nat.zero_lt_one (by decide)).written (.list 2 2) rfl
  refine ⟨s, t, same.trans (congrArg some parsed), again, run, rfl, ?_, fun p other => ?_⟩
  · rw [written.places]
    rfl
  · rw [written.places]
    exact if_neg fun last => other (Option.some.inj last.1).symm

end Path

end ScriptEngine
