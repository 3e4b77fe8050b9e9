import ScriptEngine.Proofs.ShownData
import ScriptEngine.Proofs.VisitedEntries
/-!
# Records whose entries are visited in any order

A record type looks at the entries of an object one after the other, and stops at the first that cannot be made to fit. Whether all
can, and what is made of them, is the same in all orders in which the entries are visited: what is made of data depends on the tree
that it shows alone, and each key is made to fit on its own. But of several faults it is the first that is reported.

Defaults are made to fit each time that they are filled in, and an array of records that is a default is changed by that, as its
elements are converted where they lie. Defaults are therefore assumed to be filled in alike at all times.
-/

namespace ScriptEngine

/-- Memory to which data was added, no array of which was written to. -/
abbrev Store.Added (s t : Store) : Prop := s.Later (fun _ => False) t

namespace StoreM

/-- A value made to fit a shape, to a depth of the shape, the entries of records made to fit as they are visited. -/
def conformBy (visits : Visits) : Nat → Shape → Value → StoreM Value
  | 0, _, v => pure v
  | depth + 1, shape, v =>
    match shape with
    | .map _ =>
      if v.isNull then do newBox (← newObject [])
      else do
        let _ ← objectEntries shape.describe v
        pure v
    | .record fields =>
      if v.isNull then pure .null
      else do
        let entries ← objectEntries "record" v
        let places := visits.places depth (← get) entries
        let given ← conformGiven (conformBy visits depth) fields (visited places entries)
        let all ← fillFields (conformBy visits depth) fields (arranged places given)
        newBox (← newObject all)
    | .array element =>
      match v with
      | .array a => do
        conformElements (conformBy visits depth element) a 0 ((← get).array a).cells.toList
        pure v
      | v => pure v

/-- Making a value fit changes neither functions nor frames. -/
theorem code_conformBy (visits : Visits) (depth : Nat) (shape : Shape) (v : Value) :
    Leaves Store.code (conformBy visits depth shape v) := by
  induction depth generalizing shape v with
  | zero => exact leaves_pure v
  | succ depth ih =>
    cases shape with
    | map sorted => unfold conformBy; grind
    | record fields =>
      have given := leaves_conformGiven blind_code ih fields
      have filled := leaves_fillFields blind_code ih fields
      unfold conformBy
      grind
    | array element =>
      have elements := leaves_conformElements blind_code (ih element)
      unfold conformBy
      grind

/-- As many entries are given as there were. -/
theorem conformGiven_bind_congr {conform : Shape → Value → StoreM Value} {fields : List FieldShape} {α : Type}
    {f g : List (Text × Node) → StoreM α} (es : List (Text × Node)) (same : ∀ given, given.length = es.length → f given = g given) :
    conformGiven conform fields es >>= f = conformGiven conform fields es >>= g := by
  induction es generalizing f g with
  | nil => simp only [conformGiven, pure_bind, same [] rfl]
  | cons e rest ih =>
    cases found : fields.find? fun f => f.name.equalFold e.1 with
    | none =>
      rw [conformGiven, found]
      rfl
    | some field =>
      rw [conformGiven_cons found]
      simp only [bind_assoc, pure_bind]
      refine bind_congr fun m => bind_congr fun n => ih fun given size => same _ ?_
      rw [List.length_cons, List.length_cons, size]

/-- Values are made to fit as when the entries of records are visited in the order of their keys. -/
theorem conformBy_stored : conformBy .stored = conformTo := by
  funext depth
  induction depth with
  | zero => rfl
  | succ depth ih =>
    funext shape v
    cases shape with
    | map => rfl
    | record fields =>
      unfold conformBy conformTo
      rw [ih]
      dsimp only
      split
      · rfl
      refine bind_congr fun entries => ?_
      change (get >>= fun _ => do
        let given ← conformGiven (conformTo depth) fields (visited (List.range entries.length) entries)
        let all ← fillFields (conformTo depth) fields (arranged (List.range entries.length) given)
        newBox (← newObject all) : StoreM Value) = _
      rw [visited_range]
      refine (show (get >>= fun _ => _ : StoreM Value) = _ from rfl).trans (conformGiven_bind_congr entries fun given size => ?_)
      rw [← size, arranged_range]
    | array element =>
      unfold conformBy conformTo
      rewrite [ih]
      cases v <;> rfl

/-! ## Fields -/

section Fields

variable {s t : Store} {v w : Value} {src : Source} {depth : Nat} {fields : List FieldShape} {blame : Fault → Prop}

/-- The tree that json data shows, as what is known of the data. -/
abbrev EndsIn (blame : Fault → Prop) : Option Json → StoreM Node → Store → Prop := Ends blame fun n j t => t.Shows n j

/-- The json data of a value of which something is known. -/
theorem Turns.toNode {o : Option Source} {x : StoreM Value} (turns : Turns o x s) :
    EndsIn (fun _ => True) (o.map Source.form) (x >>= StoreM.toNode) s := by
  cases o with
  | none => exact FailsWith.bind turns _
  | some src => exact does_bind turns fun w u _ offers => offers.gives

theorem Turns.rethrow {o : Option Source} {x : StoreM Value} (turns : Turns o x s) (g : Fault) :
    Turns o (tryCatch x fun _ => throw g) s := by
  cases o with
  | none =>
    obtain ⟨f, t, run, -⟩ := turns
    refine ⟨g, t, ?_, trivial⟩
    rw [ExceptT.run_tryCatch, StateT.run_bind, run]
    rfl
  | some src => exact does_tryCatch turns

/-- Whether a text is let through depends on the text alone. -/
theorem within_turns (name : Text) (maxLength : Nat) (src : Source) : ∃ o, ∀ s w, s.Offers w src →
    Turns o (limited name maxLength w) s := by
  unfold limited
  by_cases text : ∃ x, src = .value (.string x)
  · obtain ⟨x, rfl⟩ := text
    by_cases long : (decide (maxLength > 0) && decide (x.length > maxLength)) = true
    · refine ⟨none, fun s w offers => ?_⟩
      rw [offers.1]
      dsimp only
      rw [if_pos long]
      exact fails_throw trivial
    · refine ⟨some (.value (.string x)), fun s w offers => ?_⟩
      rw [offers.1]
      dsimp only
      rw [if_neg long]
      exact turns_pure trivial
  · refine ⟨some src, fun s w offers => ?_⟩
    cases w with
    | string x =>
      cases src with
      | value w => exact absurd ⟨x, offers.1 ▸ rfl⟩ text
      | data j => exact absurd rfl (offers.1 x)
    | _ => exact does_pure offers

/-- What is made of a value that was read of data so that it fits a field is the same in all memories and orders. -/
theorem conformField_turns (f : FieldShape) (inner : ∀ shape, f.shape = some shape →
      ∃ o, ∀ visits t v, s.Added t → t.Carries v src → Turns o (conformBy visits depth shape v) t) :
    ∃ o, ∀ visits t v, s.Added t → t.Carries v src → Turns o (conformField (conformBy visits depth) f v) t := by
  obtain ⟨name, kind, shape, mandatory, maxLength, fallback⟩ := f
  by_cases null : src = .value .null
  · -- null is let through if it may be given
    subst null
    cases mandatory with
    | true => exact ⟨none, fun visits t v _ carries => by rw [carries.1]; exact fails_throw trivial⟩
    | false => exact ⟨some (.value .null), fun visits t v _ carries => by rw [carries.1]; exact turns_pure trivial⟩
  · have present {t : Store} {v : Value} (carries : t.Carries v src) : v.isNull = false := by
      cases v with
      | null =>
        cases src with
        | value w => exact absurd (carries.1 ▸ rfl) null
        | data j =>
          obtain ⟨b, n, impossible, -⟩ := carries
          cases impossible
      | _ => rfl
    cases shape with
    | some shape =>
      obtain ⟨o, turns⟩ := inner shape rfl
      refine ⟨o, fun visits t v added carries => ?_⟩
      unfold conformField
      dsimp only
      rw [present carries]
      exact turns visits t v added carries
    | none =>
      have opened {visits : Visits} {o : Option Source} {t : Store} {v : Value} (carries : t.Carries v src)
          (turns : ∀ g : Fault, Turns o (tryCatch (coerce v kind) (fun _ => throw g) >>= limited name maxLength) t) :
          Turns o (conformField (conformBy visits depth) (.mk name kind none mandatory maxLength fallback) v) t := by
        unfold conformField
        dsimp only
        rw [present carries]
        exact ends_kindOf_bind (turns _)
      obtain ⟨o, converts⟩ := coerce_turns s.platform.zone src kind
      have converts {t : Store} {v : Value} (added : s.Added t) := converts t v (congrArg Platform.zone added.platform)
      cases o with
      | none => exact ⟨none, fun visits t v added carries => opened carries fun g => FailsWith.bind ((converts added carries).rethrow g) _⟩
      | some src' =>
        obtain ⟨o, lets⟩ := within_turns name maxLength src'
        exact ⟨o, fun visits t v added carries => opened carries fun g =>
          ends_bind ((converts added carries).rethrow g) fun w u _ offers => lets u w offers⟩

/-- The json data of an entry made to fit the field that its key names. -/
def fittedEntry (conform : Shape → Value → StoreM Value) (fields : List FieldShape) (e : Text × Node) : StoreM Node :=
  match fields.find? fun f => f.name.equalFold e.1 with
  | none =>
    throw (Fault.wrongType ("field '" ++ e.1 ++ "' is not declared in " ++ (Shape.record fields).describe))
  | some f => ofNode e.2 >>= fitted conform f

theorem conformGiven_entry (conform : Shape → Value → StoreM Value) (e : Text × Node) (rest : List (Text × Node)) :
    conformGiven conform fields (e :: rest) = (do
      let m ← fittedEntry conform fields e
      let more ← conformGiven conform fields rest
      pure ((e.1, m) :: more)) := by
  unfold fittedEntry
  cases found : fields.find? fun f => f.name.equalFold e.1 with
  | none =>
    rw [conformGiven, found]
    rfl
  | some f => rw [conformGiven_cons found]

/-- What is made of an entry is the same in all memories and orders. -/
theorem fittedEntry_ends (key : Text) (j : Json) (inner : ∀ f ∈ fields, ∀ shape, f.shape = some shape →
      ∃ o, ∀ visits t v, s.Added t → t.Carries v j.source → Turns o (conformBy visits depth shape v) t) :
    ∃ o, ∀ visits t n, s.Added t → t.Shows n j →
      EndsIn (fun _ => True) o (fittedEntry (conformBy visits depth) fields (key, n)) t := by
  cases found : fields.find? fun f => f.name.equalFold key with
  | none =>
    refine ⟨none, fun visits t n _ _ => ?_⟩
    dsimp only [fittedEntry]
    rw [found]
    exact fails_throw trivial
  | some f =>
    obtain ⟨o, turns⟩ := conformField_turns f (inner f (List.mem_of_find?_eq_some found))
    refine ⟨o.map Source.form, fun visits t n added shows_ => ?_⟩
    dsimp only [fittedEntry]
    rw [found]
    refine ends_bind (does_ofNode_shows shows_) fun v u later carries => ?_
    exact (turns visits u v (added.trans later) carries).toNode

end Fields

/-! ## Entries -/

/-- Entries show the trees of others. -/
abbrev ShowsEntries (t : Store) : List (Text × Node) → List (Text × Json) → Prop :=
  List.Forall₂ fun e f => e.1 = f.1 ∧ t.Shows e.2 f.2

section Entries

variable {conform : Shape → Value → StoreM Value} {s t : Store} {depth : Nat} {fields : List FieldShape} {blame : Fault → Prop}
  {es : List (Text × Node)} {js : List (Text × Json)}

theorem ShowsEntries.later (shows_ : ShowsEntries s es js) (added : s.Added t) : ShowsEntries t es js :=
  shows_.imp fun _ _ h => ⟨h.1, h.2.later added (.refl _)⟩

/-- Data that shows an object is one whose entries show those of the tree. -/
theorem entries_of_shows {n : Node} (shows_ : s.Shows n (.object js)) :
    ∃ a es, n = .object a ∧ s.objects[a]? = some es ∧ ShowsEntries s es js := by
  cases shows_ with
  | single single => exact absurd (Node.depth_of_single? single) (Nat.succ_ne_zero _)
  | @object a es _ lies keys each =>
    exact ⟨a, es, rfl, lies, forall₂_of_each keys.length_eq fun i e f he hf => ⟨each_of_forall₂ keys i e f he hf, each i e f he hf⟩⟩

/-- Entries that can each be made to fit can be so one after the other. -/
theorem does_conformGiven (each : List.Forall₂ (fun e f => e.1 = f.1 ∧ ∀ t, s.Added t →
      EndsIn blame (some f.2) (fittedEntry conform fields e) t) es js) :
    Does (fun _ => False) (fun ms t => ShowsEntries t ms js) (conformGiven conform fields es) s := by
  induction es generalizing js s with
  | nil =>
    cases each
    exact does_pure .nil
  | cons e rest ih =>
    cases each with
    | cons first each =>
    rw [conformGiven_entry]
    refine does_bind (first.2 s (.refl s)) fun m t later shows_ => ?_
    refine does_bind (ih (each.imp fun _ _ h => ⟨h.1, fun u next => h.2 u (later.trans next)⟩)) fun ms u next more => ?_
    exact does_pure (.cons ⟨first.1, shows_.later next (.refl _)⟩ more)

/-- When one entry cannot be made to fit, the first that cannot is to blame. -/
theorem fails_conformGiven (each : ∀ e ∈ es, ∃ o, ∀ t, s.Added t → EndsIn blame o (fittedEntry conform fields e) t)
    (bad : ∃ e ∈ es, ∀ t, s.Added t → EndsIn blame none (fittedEntry conform fields e) t) :
    FailsWith blame (conformGiven conform fields es) s := by
  induction es generalizing s with
  | nil =>
    obtain ⟨e, he, -⟩ := bad
    cases he
  | cons e rest ih =>
    rw [conformGiven_entry]
    obtain ⟨o, ends⟩ := each e (List.mem_cons_self ..)
    cases o with
    | none => exact FailsWith.bind (ends s (.refl s)) _
    | some j =>
      -- this entry fits, so that the one that does not is among the rest
      have later_bad : ∃ e ∈ rest, ∀ t, s.Added t → EndsIn blame none (fittedEntry conform fields e) t := by
        obtain ⟨e', he', fails⟩ := bad
        obtain rfl | he' := List.mem_cons.mp he'
        · obtain ⟨m, t, run, -⟩ := ends s (.refl s)
          obtain ⟨f, u, run', -⟩ := fails s (.refl s)
          cases run.symm.trans run'
        · exact ⟨e', he', fails⟩
      refine fails_bind (ends s (.refl s)) fun m t later _ => FailsWith.bind (ih (fun e he => ?_) ?_) _
      · obtain ⟨o, ends⟩ := each e (List.mem_cons_of_mem _ he)
        exact ⟨o, fun u next => ends u (later.trans next)⟩
      · obtain ⟨e', he', fails⟩ := later_bad
        exact ⟨e', he', fun u next => fails u (later.trans next)⟩

/-- Whether the entries of a record can be made to fit, and what is made of them, is the same in all orders. -/
theorem conformGiven_ends (each : ∀ f ∈ js, ∃ o, ∀ visits t n, s.Added t → t.Shows n f.2 →
      EndsIn blame o (fittedEntry (conformBy visits depth) fields (f.1, n)) t) :
    ∃ o : Option (List (Text × Json)), ∀ visits t es places, s.Added t → ShowsEntries t es js → places.Perm (List.range es.length) →
      Ends blame (fun given js' u => ShowsEntries u (arranged places given) js') o
        (conformGiven (conformBy visits depth) fields (visited places es)) t := by
  -- whether an entry fits is known beforehand, so that one which does not is there in all orders or in none
  by_cases bad : ∃ f ∈ js, ∀ visits t n, s.Added t → t.Shows n f.2 →
      EndsIn blame none (fittedEntry (conformBy visits depth) fields (f.1, n)) t
  · refine ⟨none, fun visits t es places added shows_ perm => fails_conformGiven (fun e he => ?_) ?_⟩
    · obtain ⟨f, hf, key, data⟩ := forall₂_exists_right shows_ ((visited_perm perm).mem_iff.mp he)
      obtain ⟨o, ends⟩ := each f hf
      rw [← key] at ends
      exact ⟨o, fun u later => ends visits u e.2 (added.trans later) (data.later later (.refl _))⟩
    · obtain ⟨f, hf, ends⟩ := bad
      obtain ⟨e, he, key, data⟩ := forall₂_exists_left shows_ hf
      rw [← key] at ends
      exact ⟨e, (visited_perm perm).mem_iff.mpr he, fun u later => ends visits u e.2 (added.trans later) (data.later later (.refl _))⟩
  · have fits : ∀ f ∈ js, ∃ g : Text × Json, f.1 = g.1 ∧ ∀ visits t n, s.Added t → t.Shows n f.2 →
        EndsIn blame (some g.2) (fittedEntry (conformBy visits depth) fields (f.1, n)) t := by
      intro f hf
      obtain ⟨o, ends⟩ := each f hf
      cases o with
      | none => exact absurd ⟨f, hf, ends⟩ bad
      | some j => exact ⟨(f.1, j), rfl, ends⟩
    obtain ⟨js', all⟩ := exists_forall₂ fits
    refine ⟨some js', fun visits t es places added shows_ perm => ?_⟩
    have one_by_one : List.Forall₂ (fun e g => e.1 = g.1 ∧ ∀ u, t.Added u →
        EndsIn blame (some g.2) (fittedEntry (conformBy visits depth) fields e) u) es js' :=
      forall₂_comp (fun e f g h k => by
        obtain ⟨key, data⟩ := h
        obtain ⟨key', ends⟩ := k
        rw [← key] at ends
        exact ⟨key.trans key', fun u later => ends visits u e.2 (added.trans later) (data.later later (.refl _))⟩) shows_ all
    refine (does_conformGiven (forall₂_visited one_by_one perm)).mono fun ms u _ given => ?_
    have perm' : places.Perm (List.range js'.length) := one_by_one.length_eq ▸ perm
    exact (forall₂_arranged perm' given.flip).flip

/-- Keys are set to what corresponds in entries that correspond. -/
theorem ShowsEntries.insert (shows_ : ShowsEntries s es js) {key : Text} {n : Node} {j : Json} (data : s.Shows n j) :
    ShowsEntries s (Json.insert key n es) (Json.insert key j js) := by
  induction shows_ with
  | nil => exact .cons ⟨rfl, data⟩ .nil
  | @cons e f es js first rest ih =>
    unfold Json.insert
    rw [← first.1]
    split
    · exact .cons ⟨rfl, data⟩ (.cons ⟨rfl, first.2⟩ rest)
    · exact .cons ⟨rfl, data⟩ rest
    · exact .cons ⟨rfl, first.2⟩ ih

theorem ShowsEntries.findKey_isSome (shows_ : ShowsEntries s es js) (name : Text) :
    (findKey name es).isSome = (findKey name js).isSome := by
  rw [Bool.eq_iff_iff, ScriptEngine.findKey_isSome, ScriptEngine.findKey_isSome]
  constructor
  · rintro ⟨e, he, named⟩
    obtain ⟨f, hf, key, -⟩ := forall₂_exists_right shows_ he
    exact ⟨f, hf, key ▸ named⟩
  · rintro ⟨f, hf, named⟩
    obtain ⟨e, he, key, -⟩ := forall₂_exists_left shows_ hf
    exact ⟨e, he, key ▸ named⟩

/-- Faults of some sort are all the same one. -/
def Agreed (blame : Fault → Prop) : Prop := ∀ f f', blame f → blame f' → f = f'

/-- What the defaults of a record are filled in with is the same in all orders. When one cannot be made to fit, or is missing, it is
the first field of that sort that is to blame. -/
theorem fillFields_ends {rest : List FieldShape} (each : ∀ f ∈ rest, ∀ d, f.fallback = some d → ∃ o, ∀ visits t, s.Added t →
      EndsIn blame o (fitted (conformBy visits depth) f d) t) (js : List (Text × Json)) :
    ∃ (o : Option (List (Text × Json))) (to_blame : Fault → Prop), (Agreed blame → Agreed to_blame) ∧
      ∀ visits t out, s.Added t → ShowsEntries t out js →
        Ends to_blame (fun all js' u => ShowsEntries u all js') o (fillFields (conformBy visits depth) rest out) t := by
  induction rest generalizing js with
  | nil => exact ⟨some js, blame, id, fun visits t out _ shows_ => does_pure shows_⟩
  | cons f rest ih =>
    have ih := ih fun g hg => each g (List.mem_cons_of_mem _ hg)
    by_cases present : (findKey f.name js).isSome = true
    · obtain ⟨o, to_blame, agreed, ends⟩ := ih js
      refine ⟨o, to_blame, agreed, fun visits t out added shows_ => ?_⟩
      rw [fillFields, if_pos ((shows_.findKey_isSome f.name).trans present)]
      exact ends visits t out added shows_
    · have absent {t : Store} {out : List (Text × Node)} (shows_ : ShowsEntries t out js) : ¬(findKey f.name out).isSome = true := by
        rwa [shows_.findKey_isSome]
      cases default : f.fallback with
      | some d =>
        obtain ⟨o, ends⟩ := each f (List.mem_cons_self ..) d default
        cases o with
        | none =>
          refine ⟨none, blame, id, fun visits t out added shows_ => ?_⟩
          rw [fillFields_cons_default (absent shows_) default]
          exact FailsWith.bind (FailsWith.bind (ends visits t added) _) _
        | some j =>
          obtain ⟨o, to_blame, agreed, ends'⟩ := ih (Json.insert f.name j js)
          refine ⟨o, to_blame, agreed, fun visits t out added shows_ => ?_⟩
          rw [fillFields_cons_default (absent shows_) default]
          have copied : Does (fun _ => False) (fun n u => u.Shows n j) (fitted (conformBy visits depth) f d >>= clone) t :=
            does_bind (ends visits t added) fun n u _ data => does_clone_shows data
          refine ends_bind copied fun n u later data => ends' visits u _ (added.trans later) ?_
          exact (shows_.later later).insert data
      | none =>
        by_cases must : f.mandatory = true
        · refine ⟨none, (· = Fault.raised Fault.validationError ("mandatory field '" ++ f.name ++ "' is missing")),
            fun _ g g' hg hg' => hg.trans hg'.symm, fun visits t out added shows_ => ?_⟩
          rw [fillFields, if_neg (absent shows_), default]
          dsimp only
          rw [if_pos must]
          exact fails_throw rfl
        · obtain ⟨o, to_blame, agreed, ends⟩ := ih js
          refine ⟨o, to_blame, agreed, fun visits t out added shows_ => ?_⟩
          rw [fillFields, if_neg (absent shows_), default]
          dsimp only
          rw [if_neg must]
          exact ends visits t out added shows_

end Entries

/-! ## Defaults -/

/-- A default is filled in alike at all times: it lies in no memory, or is a json value whose data has settled, or it is the default
of a field without a shape that makes the same of it in all memory to which more has been added. -/
def DefaultStays (s : Store) (f : FieldShape) (d : Value) : Prop :=
  (∃ src, s.Carries d src) ∨
    f.shape = none ∧ ∃ o, ∀ t, s.Added t → EndsIn (fun _ => True) o (fitted (fun _ => pure) f d) t

/-- An array of values that were read of data, or lie in no memory, stays the default of a field that takes it as it is. -/
theorem array_stays {s : Store} {f : FieldShape} {a : Nat} {d : ArrayData} {srcs : List Source} (lies : s.arrays[a]? = some d)
    (elements : List.Forall₂ s.Carries d.cells.toList srcs) (unshaped : f.shape = none) (taken : s.Holds f.kind (.array a)) :
    DefaultStays s f (.array a) := by
  refine .inr ⟨unshaped, some (.list (srcs.map Source.form)), fun t added => ?_⟩
  obtain ⟨name, kind, shape, mandatory, maxLength, fallback⟩ := f
  cases unshaped
  have lies' : t.arrays[a]? = some d := by
    obtain ⟨d', there, -, same⟩ := added.arrays a d lies
    rwa [same not_false] at there
  have fits : (conformField (fun _ => pure) (.mk name kind none mandatory maxLength fallback) (.array a)).run.run t =
      (.ok (.array a), t) := by
    have same : t.kindOf (.array a) = s.kindOf (.array a) := by rw [Store.kindOf, Store.kindOf, Store.array, Store.array, lies, lies']
    have converts : (coerce (.array a) kind).run.run t = (.ok (.array a), t) := coerce_of_holds (by rwa [Store.Holds, same])
    unfold conformField
    dsimp only
    rw [show (Value.array a).isNull = false from rfl, if_neg Bool.false_ne_true, run_kindOf, ExceptT.run_bind, StateT.run_bind,
      ExceptT.run_tryCatch, StateT.run_bind, converts]
    rfl
  have whole : Does (fun _ => False) (fun w u => w = .array a ∧ u = t)
      (conformField (fun _ => pure) (.mk name kind none mandatory maxLength fallback) (.array a)) t :=
    ⟨_, t, fits, .refl t, rfl, rfl⟩
  refine does_bind whole fun w u _ same => ?_
  obtain ⟨rfl, rfl⟩ := same
  exact gives_array lies' (elements.imp fun _ _ carries => carries.later added)

end StoreM

variable (s : Store)

mutual

/-- A shape fills in its defaults alike at all times. -/
def Shape.Stays : Shape → Prop
  | .map _ => True
  | .record fields => FieldShape.AllStay fields
  | .array _ => True

/-- All fields fill in their defaults alike. -/
def FieldShape.AllStay : List FieldShape → Prop
  | [] => True
  | f :: fs => f.Stays ∧ FieldShape.AllStay fs

/-- A field fills in its default alike, and so do those of its shape. -/
def FieldShape.Stays : FieldShape → Prop
  | .mk name kind none mandatory maxLength fallback =>
    ∀ d, fallback = some d → StoreM.DefaultStays s (.mk name kind none mandatory maxLength fallback) d
  | .mk name kind (some shape) mandatory maxLength fallback => shape.Stays ∧
    ∀ d, fallback = some d → StoreM.DefaultStays s (.mk name kind (some shape) mandatory maxLength fallback) d

end

variable {s}

theorem FieldShape.AllStay.of_mem {fields : List FieldShape} (h : FieldShape.AllStay s fields) {f : FieldShape} (hf : f ∈ fields) :
    f.Stays s := by
  induction fields with
  | nil => cases hf
  | cons g fs ih =>
    obtain rfl | hf := List.mem_cons.mp hf
    · exact h.1
    · exact ih h.2 hf

theorem FieldShape.Stays.shape {f : FieldShape} {shape : Shape} (h : f.Stays s) (hs : f.shape = some shape) : shape.Stays s := by
  obtain ⟨_, _, _ | _, _, _, _⟩ := f <;> cases hs
  exact h.1

theorem FieldShape.Stays.default {f : FieldShape} {d : Value} (h : f.Stays s) (hd : f.fallback = some d) :
    StoreM.DefaultStays s f d := by
  obtain ⟨_, _, _ | _, _, _, _⟩ := f
  · exact h d hd
  · exact h.2 d hd

namespace StoreM

/-! ## Records -/

section Records

variable {s t : Store} {depth : Nat} {fields : List FieldShape} {blame : Fault → Prop} {js : List (Text × Json)} {v : Value} {j : Json}

/-- What a record type makes of an object is the same in all orders. -/
theorem record_ends (blame : Fault → Prop)
    (each : ∀ f ∈ js, ∃ o, ∀ visits t n, s.Added t → t.Shows n f.2 →
      EndsIn blame o (fittedEntry (conformBy visits depth) fields (f.1, n)) t)
    (defaults : ∀ f ∈ fields, ∀ d, f.fallback = some d → ∃ o, ∀ visits t, s.Added t →
      EndsIn blame o (fitted (conformBy visits depth) f d) t) :
    ∃ (o : Option Source) (to_blame : Fault → Prop), (Agreed blame → Agreed to_blame) ∧
      ∀ visits t v, s.Added t → t.Means v (.data (.object js)) →
        Ends to_blame (fun w src u => u.Offers w src) o (conformBy visits (depth + 1) (.record fields) v) t := by
  -- an object is made to fit in the memory in which its entries lie
  have opened {visits : Visits} {t : Store} {v : Value} {o : Option Source} {to_blame : Fault → Prop}
      (means : t.Means v (.data (.object js)))
      (ends : ∀ es places, ShowsEntries t es js → places.Perm (List.range es.length) →
        Ends to_blame (fun w src u => u.Offers w src) o (do
          let given ← conformGiven (conformBy visits depth) fields (visited places es)
          let all ← fillFields (conformBy visits depth) fields (arranged places given)
          newBox (← newObject all)) t) :
      Ends to_blame (fun w src u => u.Offers w src) o (conformBy visits (depth + 1) (.record fields) v) t := by
    obtain ⟨b, n, rfl, box, shows_⟩ := means
    obtain ⟨a, es, rfl, lies, shows_⟩ := entries_of_shows shows_
    refine ends_bind (does_objectEntries "record" box) fun entries u _ looked => ?_
    obtain ⟨found, rfl⟩ := looked
    rw [Store.object_of_lies lies] at found
    subst found
    exact ends_get_bind (ends entries _ shows_ (visits.perm _ _ _))
  obtain ⟨o, given⟩ := conformGiven_ends each
  cases o with
  | none =>
    refine ⟨none, blame, id, fun visits t v added means => opened means fun es places shows_ perm => ?_⟩
    exact FailsWith.bind (given visits t es places added shows_ perm) _
  | some js' =>
    obtain ⟨o, to_blame, agreed, filled⟩ := fillFields_ends defaults js'
    cases o with
    | none =>
      refine ⟨none, to_blame, agreed, fun visits t v added means => opened means fun es places shows_ perm => ?_⟩
      exact fails_bind (given visits t es places added shows_ perm) fun out u later shows_ =>
        FailsWith.bind (filled visits u _ (added.trans later) shows_) _
    | some all =>
      refine ⟨some (.data (.object all)), to_blame, agreed, fun visits t v added means =>
        opened means fun es places shows_ perm => ?_⟩
      refine does_bind (given visits t es places added shows_ perm) fun out u later shows_ => ?_
      refine does_bind (filled visits u _ (added.trans later) shows_) fun out y next shows_ => ?_
      exact does_bind (does_newObject_shows shows_) fun n z _ shows_ => turns_newBox shows_

/-- Only null and objects are looked into. -/
theorem refuses_objectEntries {t : Store} {src : Source} (null : src ≠ .value .null) (other : ∀ js, src ≠ .data (.object js))
    (means : t.Means v src) (what : Text) : v.isNull = false ∧ ∃ f, (objectEntries what v).run.run t = (.error f, t) := by
  cases src with
  | value w =>
    obtain ⟨rfl, single⟩ := means
    cases v with
    | null => exact absurd rfl null
    | array | queue | json | image | vectorImage | canvas | function => cases single
    | _ => exact ⟨rfl, _, rfl⟩
  | data j =>
    obtain ⟨b, n, rfl, box, shows_⟩ := means
    refine ⟨rfl, ?_⟩
    rw [objectEntries, run_get_bind]
    dsimp only
    rw [Store.box, box]
    cases n with
    | object a =>
      cases shows_ with
      | single single => cases single
      | object => exact absurd rfl (other _)
    | _ => exact ⟨_, rfl⟩

/-- What a record type makes of anything but an object depends on no order. -/
theorem record_other (depth : Nat) (fields : List FieldShape) {t : Store} {src : Source} (null : src ≠ .value .null)
    (other : ∀ js, src ≠ .data (.object js)) (means : t.Means v src) :
    ∃ f, ∀ visits, (conformBy visits (depth + 1) (.record fields) v).run.run t = (.error f, t) := by
  obtain ⟨present, f, run⟩ := refuses_objectEntries null other means "record"
  refine ⟨f, fun visits => ?_⟩
  unfold conformBy
  dsimp only
  rw [present, if_neg Bool.false_ne_true]
  exact bind_of_error run

/-- A value that is no array is taken as it is where one is declared. -/
theorem conformBy_array {visits : Visits} {element : Shape} {src : Source} (means : s.Means v src) :
    conformBy visits (depth + 1) (.array element) v = pure v := by
  cases v with
  | array a =>
    cases src with
    | value w => exact absurd (means.1 ▸ means.2 : (Value.array a).IsSingle) id
    | data j =>
      obtain ⟨b, n, impossible, -⟩ := means
      cases impossible
  | _ => rfl

/-- The shapes of fields make the same of values that are read of data. -/
def InnerTurns (s : Store) (depth : Nat) (fields : List FieldShape) : Prop :=
  ∀ f ∈ fields, ∀ shape, f.shape = some shape → ∀ src,
    ∃ o, ∀ visits t v, s.Added t → t.Carries v src → Turns o (conformBy visits depth shape v) t

/-- What is filled in for a default is the same in all orders. -/
theorem default_ends {f : FieldShape} {d : Value} (inner : InnerTurns s depth fields) (hf : f ∈ fields) (stays : f.Stays s)
    (default : f.fallback = some d) :
    ∃ o, ∀ visits t, s.Added t → EndsIn (fun _ => True) o (fitted (conformBy visits depth) f d) t := by
  obtain ⟨src, carries⟩ | ⟨unshaped, o, ends⟩ := stays.default default
  · obtain ⟨o, turns⟩ := conformField_turns f fun shape hs => inner f hf shape hs src
    exact ⟨o.map Source.form, fun visits t added => (turns visits t d added (carries.later added)).toNode⟩
  · refine ⟨o, fun visits t added => ?_⟩
    have same : fitted (conformBy visits depth) f d = fitted (fun _ => pure) f d := by
      obtain ⟨_, _, _, _, _, _⟩ := f
      cases unshaped
      rfl
    rw [same]
    exact ends t added

/-- What a shape makes of a value is the same in all orders. -/
theorem conformBy_turns (depth : Nat) {shape : Shape} (stays : shape.Stays s) (src : Source) :
    ∃ o, ∀ visits t v, s.Added t → t.Means v src → Turns o (conformBy visits depth shape v) t := by
  -- on the depth: the shapes of fields are looked into at the depth below, with what was read of the entries
  induction depth generalizing shape src with
  | zero => exact ⟨some src, fun visits t v _ means => does_pure means.offers⟩
  | succ depth ih =>
    cases shape with
    | map sorted =>
      by_cases null : src = .value .null
      · refine ⟨some (.data (.object [])), fun visits t v _ means => ?_⟩
        subst null
        rw [means.1]
        exact does_bind (does_newObject_shows .nil) fun n u _ shows_ => turns_newBox shows_
      by_cases object : ∃ js, src = .data (.object js)
      · obtain ⟨js, rfl⟩ := object
        refine ⟨some (.data (.object js)), fun visits t v _ means => ?_⟩
        have offers := means.offers
        obtain ⟨b, n, rfl, box, shows_⟩ := means
        obtain ⟨a, es, rfl, -, -⟩ := entries_of_shows shows_
        refine does_bind (does_objectEntries _ box) fun entries u _ looked => does_pure ?_
        obtain ⟨-, rfl⟩ := looked
        exact offers
      · refine ⟨none, fun visits t v _ means => ?_⟩
        obtain ⟨present, f, run⟩ := refuses_objectEntries null (fun js same => object ⟨js, same⟩) means (Shape.map sorted).describe
        unfold conformBy
        dsimp only
        rw [present, if_neg Bool.false_ne_true]
        exact FailsWith.bind ⟨f, t, run, trivial⟩ _
    | record fields =>
      by_cases object : ∃ js, src = .data (.object js)
      · obtain ⟨js, rfl⟩ := object
        have inner : InnerTurns s depth fields := by
          intro f hf shape hs src
          obtain ⟨o, turns⟩ := ih ((stays.of_mem hf).shape hs) src
          exact ⟨o, fun visits t v added carries => turns visits t v added carries.means⟩
        obtain ⟨o, to_blame, -, ends⟩ := record_ends (fun _ => True)
          (fun f _ => fittedEntry_ends f.1 f.2 fun g hg shape hs => inner g hg shape hs _)
          fun f hf d hd => default_ends inner hf (stays.of_mem hf) hd
        exact ⟨o, fun visits t v added means => (ends visits t v added means).mono fun _ _ _ _ => trivial⟩
      by_cases null : src = .value .null
      · exact ⟨some src, fun visits t v _ means => by subst null; rw [means.1]; exact turns_pure trivial⟩
      · refine ⟨none, fun visits t v _ means => ?_⟩
        obtain ⟨f, run⟩ := record_other depth fields null (fun js same => object ⟨js, same⟩) means
        exact ⟨f, t, run visits, trivial⟩
    | array element =>
      refine ⟨some src, fun visits t v _ means => ?_⟩
      rw [conformBy_array means]
      exact does_pure means.offers

theorem innerTurns (stays : (Shape.record fields).Stays s) (depth : Nat) : InnerTurns s depth fields := by
  intro f hf shape hs src
  obtain ⟨o, turns⟩ := conformBy_turns depth ((stays.of_mem hf).shape hs) src
  exact ⟨o, fun visits t v added carries => turns visits t v added carries.means⟩

/-! ### Faults -/

/-- A fault that an entry of an object or a default of the record gives on its own, in some order and some memory to which more has
been added. -/
inductive Blamed (s : Store) (fields : List FieldShape) (v : Value) (f : Fault) : Prop
  | entry {visits : Visits} {t u : Store} {n : Node} {js : List (Text × Json)} {e : Text × Json}
      (means : s.Means v (.data (.object js))) (he : e ∈ js) (added : s.Added t) (data : t.Shows n e.2)
      (run : (fittedEntry (conformBy visits (FieldShape.depthAll fields)) fields (e.1, n)).run.run t = (.error f, u))
  | default {visits : Visits} {t u : Store} {g : FieldShape} {d : Value} (hg : g ∈ fields) (default : g.fallback = some d)
      (added : s.Added t) (run : (fitted (conformBy visits (FieldShape.depthAll fields)) g d).run.run t = (.error f, u))

/-- An entry that fits on its own in one order does so in all orders and at all times, so that it is never to blame. -/
theorem entry_fits {visits : Visits} {key : Text} {n m : Node} (stays : (Shape.record fields).Stays s) (shows_ : s.Shows n j)
    (run : (fittedEntry (conformBy visits (FieldShape.depthAll fields)) fields (key, n)).run.run s = (.ok m, t)) (visits' : Visits)
    {u : Store} {n' : Node} (added : s.Added u) (data : u.Shows n' j) :
    ∃ m' y, (fittedEntry (conformBy visits' (FieldShape.depthAll fields)) fields (key, n')).run.run u = (.ok m', y) := by
  obtain ⟨o, ends⟩ := fittedEntry_ends key j fun g hg shape hs => innerTurns stays (FieldShape.depthAll fields) g hg shape hs _
  cases o with
  | none =>
    obtain ⟨f, y, failed, -⟩ := ends visits s n (.refl s) shows_
    cases run.symm.trans failed
  | some j' =>
    obtain ⟨m', y, run', -⟩ := ends visits' u n' added data
    exact ⟨m', y, run'⟩

/-- So is a default that fits on its own. -/
theorem default_fits {visits : Visits} {g : FieldShape} {d : Value} {m : Node} (stays : (Shape.record fields).Stays s) (hg : g ∈ fields)
    (default : g.fallback = some d)
    (run : (fitted (conformBy visits (FieldShape.depthAll fields)) g d).run.run s = (.ok m, t)) (visits' : Visits)
    {u : Store} (added : s.Added u) :
    ∃ m' y, (fitted (conformBy visits' (FieldShape.depthAll fields)) g d).run.run u = (.ok m', y) := by
  obtain ⟨o, ends⟩ := default_ends (innerTurns stays (FieldShape.depthAll fields)) hg (stays.of_mem hg) default
  cases o with
  | none =>
    obtain ⟨f, y, failed, -⟩ := ends visits s (.refl s)
    cases run.symm.trans failed
  | some j' =>
    obtain ⟨m', y, run', -⟩ := ends visits' u added
    exact ⟨m', y, run'⟩

/-- When all defaults of a record fit on their own, what is to blame is a fault of an entry that does not. -/
theorem Blamed.unfit {f : Fault} {a b : Nat} {es : List (Text × Node)} (blamed : Blamed s fields (.json b) f)
    (stays : (Shape.record fields).Stays s) (box : s.boxes[b]? = some (.object a)) (lies : s.objects[a]? = some es)
    (defaults : ∀ g ∈ fields, ∀ d, g.fallback = some d →
      ∃ m t, (fitted (conformBy .stored (FieldShape.depthAll fields)) g d).run.run s = (.ok m, t)) :
    ∃ e ∈ es, (∀ m t, (fittedEntry (conformBy .stored (FieldShape.depthAll fields)) fields e).run.run s ≠ (.ok m, t)) ∧
      ∃ visits t n u, (fittedEntry (conformBy visits (FieldShape.depthAll fields)) fields (e.1, n)).run.run t = (.error f, u) := by
  cases blamed with
  | @entry visits t u n js x means hx added data run =>
    obtain ⟨_, _, ⟨⟩, box', shows_⟩ := means
    cases box.symm.trans box'
    obtain ⟨_, es', ⟨⟩, lies', all⟩ := entries_of_shows shows_
    cases lies.symm.trans lies'
    obtain ⟨e, he, key, here⟩ := forall₂_exists_left all hx
    rw [← key] at run
    refine ⟨e, he, fun m y fits => ?_, visits, t, n, u, run⟩
    obtain ⟨m', y', run'⟩ := entry_fits stays here fits visits added data
    cases run'.symm.trans run
  | @default visits t u g d hg default added run =>
    obtain ⟨m, y, fits⟩ := defaults g hg d default
    obtain ⟨m', y', run'⟩ := default_fits stays hg default fits visits added
    cases run'.symm.trans run

/-- Two computations end alike: either both give the same, or both fail, and with the same fault if faults agree. -/
def EndAlike {α : Type} (agreed : Prop) (same : α → Store → α → Store → Prop) (x y : StoreM α) (s : Store) : Prop :=
  (∃ a t a' t', x.run.run s = (.ok a, t) ∧ y.run.run s = (.ok a', t') ∧ same a t a' t') ∨
    ∃ f t f' t', x.run.run s = (.error f, t) ∧ y.run.run s = (.error f', t') ∧ (agreed → f = f')

/-- Two values that were made in memory to which data was added give json data that shows one tree. -/
def SameTree (s : Store) (w : Value) (t : Store) (w' : Value) (t' : Store) : Prop :=
  s.Added t ∧ s.Added t' ∧ ∃ j, GivesTree t w j ∧ GivesTree t' w' j

/-- What a computation that ends as is known gives for a fault is one of the sort that is known. -/
theorem Ends.blames {α β : Type} {as : α → β → Store → Prop} {o : Option β} {x : StoreM α} {f : Fault} (ends : Ends blame as o x s)
    (run : x.run.run s = (.error f, t)) : blame f := by
  cases o with
  | some b =>
    obtain ⟨a, u, run', -⟩ := ends
    cases run.symm.trans run'
  | none =>
    obtain ⟨e, u, run', blamed⟩ := ends
    cases run.symm.trans run'
    exact blamed

/-- When a value cannot be made to fit in two orders, the faults are the same if those are that are to blame. -/
theorem conformBy_fault {shape : Shape} {src : Source} {visits visits' : Visits} {f f' : Fault} {t' : Store} (stays : shape.Stays s)
    (means : s.Means v src) (agreed : ∀ fields, shape = .record fields → Agreed (Blamed s fields v))
    (run : (conformBy visits shape.depth shape v).run.run s = (.error f, t))
    (run' : (conformBy visits' shape.depth shape v).run.run s = (.error f', t')) : f = f' := by
  cases shape with
  | map sorted =>
    have same : conformBy visits' (Shape.map sorted).depth (.map sorted) v = conformBy visits (Shape.map sorted).depth (.map sorted) v := rfl
    rw [same] at run'
    cases run.symm.trans run'
    rfl
  | record fields =>
    by_cases object : ∃ js, src = .data (.object js)
    · obtain ⟨js, rfl⟩ := object
      have inner := innerTurns stays (FieldShape.depthAll fields)
      obtain ⟨o, to_blame, one, ends⟩ := record_ends (Blamed s fields v)
        (fun e he => by
          obtain ⟨o, ends⟩ := fittedEntry_ends (s := s) e.1 e.2 fun g hg shape hs => inner g hg shape hs _
          exact ⟨o, fun visits t n added data => (ends visits t n added data).mono fun f u run _ => .entry means he added data run⟩)
        fun g hg d hd => by
          obtain ⟨o, ends⟩ := default_ends inner hg (stays.of_mem hg) hd
          exact ⟨o, fun visits t added => (ends visits t added).mono fun f u run _ => .default hg hd added run⟩
      exact one (agreed fields rfl) f f' ((ends visits s v (.refl s) means).blames run) ((ends visits' s v (.refl s) means).blames run')
    by_cases null : src = .value .null
    · subst null
      rw [means.1] at run
      cases run
    · obtain ⟨e, always⟩ := record_other (FieldShape.depthAll fields) fields null
        (fun js same => object ⟨js, same⟩) means
      cases (always visits).symm.trans run
      cases (always visits').symm.trans run'
      rfl
  | array element =>
    rw [show (Shape.array element).depth = element.depth + 1 from rfl, conformBy_array means] at run
    cases run

/-- In all orders a shape makes the same of a value, or fails. The fault is the same if those are that the entries and defaults of a
record give on their own. -/
theorem conformBy_alike {shape : Shape} (stays : shape.Stays s) (means : ∃ src, s.Means v src) (visits visits' : Visits) :
    EndAlike (∀ fields, shape = .record fields → Agreed (Blamed s fields v)) (SameTree s) (conformBy visits shape.depth shape v)
      (conformBy visits' shape.depth shape v) s := by
  obtain ⟨src, means⟩ := means
  obtain ⟨o, turns⟩ := conformBy_turns shape.depth stays src
  cases o with
  | some src' =>
    obtain ⟨w, t, run, added, offers⟩ := turns visits s v (.refl s) means
    obtain ⟨w', t', run', added', offers'⟩ := turns visits' s v (.refl s) means
    exact .inl ⟨w, t, w', t', run, run', added, added', src'.form, offers.gives, offers'.gives⟩
  | none =>
    obtain ⟨f, t, run, -⟩ := turns visits s v (.refl s) means
    obtain ⟨f', t', run', -⟩ := turns visits' s v (.refl s) means
    exact .inr ⟨f, t, f', t', run, run', fun agreed => conformBy_fault stays means agreed run run'⟩

/-- In all orders a record type makes the same of a value, or fails: of any value but a json value whose data does not end. -/
theorem record_alike (stays : (Shape.record fields).Stays s) (tree : ∀ b, v = .json b → ∃ n j, s.boxes[b]? = some n ∧ s.Shows n j)
    (visits visits' : Visits) :
    EndAlike (Agreed (Blamed s fields v)) (SameTree s) (conformBy visits (Shape.record fields).depth (.record fields) v)
      (conformBy visits' (Shape.record fields).depth (.record fields) v) s := by
  cases v with
  | json b =>
    obtain ⟨n, j, lies, shows_⟩ := tree b rfl
    obtain same | ⟨f, t, f', t', run, run', agreed⟩ := conformBy_alike stays ⟨.data j, b, n, rfl, lies, shows_⟩ visits visits'
    · exact .inl same
    · exact .inr ⟨f, t, f', t', run, run', fun faults => agreed fun _ same => Shape.record.inj same ▸ faults⟩
  | null =>
    have gives : GivesTree s .null .null := (show s.Carries .null (.value .null) from ⟨rfl, trivial⟩).gives
    exact .inl ⟨.null, s, .null, s, rfl, rfl, .refl s, .refl s, .null, gives, gives⟩
  | _ => exact .inr ⟨_, s, _, s, rfl, rfl, fun _ => rfl⟩

end Records

end StoreM

/-! ## Writes to members -/

namespace Store

/-- Memory to which a json value was added. -/
def withBox (s : Store) (n : Node) : Store := { s with boxes := s.boxes.push n }

theorem added_withBox (s : Store) {n : Node} : s.Added (s.withBox n) :=
  ((StoreM.makes_newBox n).of_run (show (StoreM.newBox n).run.run s = (.ok (.json s.boxes.size), s.withBox n) from rfl)).1

/-- A json value that was added means the tree that its data shows. -/
theorem Shows.means_withBox {s : Store} {n : Node} {j : Json} (shows_ : s.Shows n j) :
    (s.withBox n).Means (.json s.boxes.size) (.data j) :=
  ⟨_, n, rfl, Array.getElem?_push_size, shows_.later s.added_withBox (.refl n)⟩

end Store

theorem Store.Bears.kept {s t : Store} {leaf : Node → Json → Prop} {n : Node} {j : Json} (bears : s.Bears leaf n j)
    (keeps : s.KeepsData t) : t.Bears leaf n j := by
  induction bears with
  | single single => exact .single single
  | object lies keys _ ih => exact .object (keeps.objects _ _ lies) keys ih
  | list lies size _ ih => exact .list (keeps.buffers _ _ lies) size ih

namespace Eval

open StoreM

/-- Puts a node at a path of data, names looked up in entries as they are visited. -/
def placeBy (visits : ScriptEngine.Visits) (base : Text) (path : List Text) (n : Node) : Node → StoreM Unit
  | .object a => setBelowBy visits base path n 0 path a
  | _ => throw (notObject base)

/-- What the shape of a variable makes of data becomes the data of its json value. -/
def publishBy (visits : ScriptEngine.Visits) (shape : Shape) (b : Nat) (root : Node) : StoreM Unit := do
  let fresh ← newBox root
  let checked ← conformBy visits shape.depth shape fresh
  setBox b (← toNode checked)

/-- Writes a node at a path and, where a shape is declared, checks what comes of it. -/
def putBy (visits : ScriptEngine.Visits) (base : Text) (path : List Text) (n : Node) (shape : Option Shape) (b : Nat) (root : Node) :
    StoreM Unit := do
  placeBy visits base path n root
  match shape with
  | none => pure ()
  | some shape => publishBy visits shape b root

/-- What a write to a member starts from: the json value, the shape that is declared, the data to change and the node to put. -/
def writeStart (base : Text) (path : List Text) (v : Value) : Exec (Nat × Option Shape × Node × Node) := do
  let b ← memberBase base path
  let m ← get
  let shape := (m.store.lookup? m.scope base).bind (·.2.shape)
  let root ← match shape with
    | some _ => StoreM.clone (m.store.box b)
    | none => pure (m.store.box b)
  let n ← StoreM.toNode v
  pure (b, shape, root, n)

/-- Writes a member, entries visited in an order. -/
def writeMemberBy (visits : ScriptEngine.Visits) (line : Nat) (base : Text) (path : List Text) (v : Value) : Exec Unit :=
  Exec.atLine line do
    let (b, shape, root, n) ← writeStart base path v
    putBy visits base path n shape b root

section Writes

variable {visits visits' : ScriptEngine.Visits} {base : Text} {path : List Text} {s t : Store} {b : Nat} {root n : Node} {j : Json}
  {shape : Option Shape} {declared : Shape}

theorem code_publishBy (visits : ScriptEngine.Visits) (shape : Shape) (b : Nat) (root : Node) :
    Leaves Store.code (publishBy visits shape b root) := by
  have fits := code_conformBy visits shape.depth shape
  unfold publishBy
  grind

theorem placeBy_clear (clear : s.ClearAlong path root) :
    (placeBy visits base path n root).run.run s = (placeBy visits' base path n root).run.run s := by
  cases root with
  | object a => exact (setBelowBy_clear n clear).trans (setBelowBy_clear n clear).symm
  | _ => rfl

theorem run_publishBy (s : Store) : (publishBy visits declared b root).run.run s =
    (conformBy visits declared.depth declared (.json s.boxes.size) >>= fun checked => toNode checked >>= setBox b).run.run
      (s.withBox root) := rfl

/-- A json value was given data that shows a tree. Nothing else has changed but data that has settled. -/
structure Published (b : Nat) (j : Json) (s t : Store) : Prop where
  data : t.Shows (t.box b) j
  rest : s.LaterBut (.box b = ·) t
  code : t.code = s.code

/-- What a shape makes of data is published. -/
theorem published {w : Value} (lies : b < s.boxes.size) (added : (s.withBox root).Added t)
    (run : (conformBy visits declared.depth declared (.json s.boxes.size)).run.run (s.withBox root) = (.ok w, t))
    (gives : GivesTree t w j) : ∃ x, (publishBy visits declared b root).run.run s = (.ok (), x) ∧ Published b j s x := by
  obtain ⟨m, y, native, later, shows_⟩ := gives
  have ran : (publishBy visits declared b root).run.run s = (.ok (), { y with boxes := y.boxes.setIfInBounds b m }) :=
    (run_publishBy s).trans ((bind_of_ok run).trans (bind_of_ok native))
  have whole := (s.added_withBox.trans added).trans later
  refine ⟨_, ran, ?_, (whole.but fun _ _ h => h.elim).setBox (fun _ => rfl) m, ?_⟩
  · have inside : b < y.boxes.size := (Array.getElem?_eq_some_iff.mp (whole.keeps.boxes b _ (Array.getElem?_eq_getElem lies))).1
    have here : Store.box { y with boxes := y.boxes.setIfInBounds b m } b = m := by
      rw [Store.box, Array.getElem?_setIfInBounds, if_pos rfl, if_pos inside, Option.getD_some]
    rw [here]
    exact Store.Bears.kept shows_ ⟨fun _ _ h => h, fun _ _ h => h⟩
  · have left := code_publishBy visits declared b root s
    rwa [ran] at left

/-- What is published is the same in all orders, or nothing is, for one fault. -/
theorem publishBy_alike (visits visits' : ScriptEngine.Visits) (lies : b < s.boxes.size) (shows_ : s.Shows root j)
    (stays : declared.Stays (s.withBox root))
    (agreed : ∀ fields, declared = .record fields → Agreed (Blamed (s.withBox root) fields (.json s.boxes.size))) :
    EndAlike True (fun _ t _ t' => ∃ j, Published b j s t ∧ Published b j s t') (publishBy visits declared b root)
      (publishBy visits' declared b root) s := by
  have refused {visits : ScriptEngine.Visits} {f : Fault} {t : Store}
      (run : (conformBy visits declared.depth declared (.json s.boxes.size)).run.run (s.withBox root) = (.error f, t)) :
      (publishBy visits declared b root).run.run s = (.error f, t) := (run_publishBy s).trans (bind_of_error run)
  obtain ⟨w, t, w', t', run, run', later, later', j', gives, gives'⟩ | ⟨f, t, f', t', run, run', same⟩ :=
    conformBy_alike stays ⟨_, shows_.means_withBox⟩ visits visits'
  · obtain ⟨x, done, held⟩ := published lies later run gives
    obtain ⟨x', done', held'⟩ := published lies later' run' gives'
    exact .inl ⟨(), x, (), x', done, done', j', held, held'⟩
  · exact .inr ⟨f, t, f', t', refused run, refused run', fun _ => same agreed⟩

/-- What it takes for a write to be the same in all orders: the path is clear; and where a shape is declared, its defaults stay,
the data that comes of the write shows a tree, and the faults agree that its entries give on their own. -/
structure Orderless (base : Text) (path : List Text) (n : Node) (shape : Option Shape) (b : Nat) (root : Node) (s : Store) : Prop where
  clear : s.ClearAlong path root
  fits : ∀ declared t, shape = some declared → (placeBy .stored base path n root).run.run s = (.ok (), t) →
    b < t.boxes.size ∧ (∃ j, t.Shows root j) ∧ declared.Stays (t.withBox root) ∧
      ∀ fields, declared = .record fields → Agreed (Blamed (t.withBox root) fields (.json t.boxes.size))

/-- A write leaves the same memory, or gives the same data to a json value. -/
theorem putBy_alike (visits visits' : ScriptEngine.Visits) (h : Orderless base path n shape b root s) :
    EndAlike True (fun _ t _ t' => t = t' ∨ ∃ u j, Published b j u t ∧ Published b j u t') (putBy visits base path n shape b root)
      (putBy visits' base path n shape b root) s := by
  -- the path is clear, so that up to the check of the shape all orders do one and the same
  obtain ⟨r, t, placed⟩ : ∃ r t, (placeBy .stored base path n root).run.run s = (r, t) := ⟨_, _, rfl⟩
  have same (visits : ScriptEngine.Visits) : (placeBy visits base path n root).run.run s = (r, t) := (placeBy_clear h.clear).trans placed
  cases r with
  | error f =>
    have run (visits : ScriptEngine.Visits) : (putBy visits base path n shape b root).run.run s = (.error f, t) := bind_of_error (same visits)
    exact .inr ⟨f, t, f, t, run visits, run visits', fun _ => rfl⟩
  | ok =>
    cases shape with
    | none =>
      have run (visits : ScriptEngine.Visits) : (putBy visits base path n none b root).run.run s = (.ok (), t) := bind_of_ok (same visits)
      exact .inl ⟨(), t, (), t, run visits, run visits', .inl rfl⟩
    | some declared =>
      have run (visits : ScriptEngine.Visits) : (putBy visits base path n (some declared) b root).run.run s =
          (publishBy visits declared b root).run.run t := bind_of_ok (same visits)
      obtain ⟨lies, ⟨j, shows_⟩, stays, agreed⟩ := h.fits declared t rfl placed
      obtain ⟨_, x, _, x', done, done', held⟩ | ⟨f, x, f', x', failed, failed', one⟩ :=
        publishBy_alike visits visits' lies shows_ stays agreed
      · exact .inl ⟨(), x, (), x', (run visits).trans done, (run visits').trans done', .inr ⟨t, held⟩⟩
      · exact .inr ⟨f, x, f', x', (run visits).trans failed, (run visits').trans failed', one⟩

/-- Two outcomes are one, or both results lead to machines that are as a relation says, or both faults are the same. -/
inductive SameOutcome {α : Type} (same : Machine → Machine → Prop) : Outcome α → Outcome α → Prop
  | done (a : α) {k k' : Machine} (h : same k k') : SameOutcome same (.done a k) (.done a k')
  | failed (f : Fault) (k k' : Machine) : SameOutcome same (.failed f k) (.failed f k')
  | one (r : Outcome α) : SameOutcome same r r

/-- Two machines that a write to a member leads to are one, but that the json value of the member may hold data that lies
elsewhere and shows the same tree. -/
def HeldAlike (base : Text) (path : List Text) (m k k' : Machine) : Prop :=
  k = k' ∨ k' = { k with store := k'.store } ∧
    ∃ b s j, memberBase base path m = .done b m ∧ Published b j s k.store ∧ Published b j s k'.store

/-- A write starts from the json value that the member is of. -/
theorem writeStart_base {m k : Machine} {v : Value} (run : writeStart base path v m = .done (b, shape, root, n) k) :
    memberBase base path m = .done b m := by
  obtain ⟨c, m₀, based, rest⟩ := Exec.done_bind run
  obtain ⟨rfl, -⟩ := done_memberBase based
  obtain ⟨m₁, _, -, rest⟩ := Exec.done_bind rest
  dsimp only at rest
  generalize (m₁.store.lookup? m₁.scope base).bind (·.2.shape) = found at rest
  cases found with
  | none =>
    obtain ⟨_, _, -, rest⟩ := Exec.done_bind rest
    obtain ⟨_, _, -, rest⟩ := Exec.done_bind rest
    cases rest
    exact based
  | some declared =>
    obtain ⟨_, _, -, rest⟩ := Exec.done_bind rest
    obtain ⟨_, _, -, rest⟩ := Exec.done_bind rest
    cases rest
    exact based

theorem writeMemberBy_alike {m : Machine} {line : Nat} {v : Value} (visits visits' : ScriptEngine.Visits)
    (orderless : ∀ b shape root n k, writeStart base path v m = .done (b, shape, root, n) k →
      Orderless base path n shape b root k.store) :
    SameOutcome (HeldAlike base path m) (writeMemberBy visits line base path v m) (writeMemberBy visits' line base path v m) := by
  by_cases started : ∃ start k, writeStart base path v m = .done start k
  · obtain ⟨⟨b, shape, root, n⟩, k, started⟩ := started
    have based := writeStart_base started
    obtain ⟨_, t, _, t', run, run', held⟩ | ⟨f, t, f', t', run, run', one⟩ :=
      putBy_alike visits visits' (orderless b shape root n k started)
    · have done {visits : ScriptEngine.Visits} {t : Store} (run : (putBy visits base path n shape b root).run.run k.store = (.ok (), t)) :
          writeMemberBy visits line base path v m = .done () { k with store := t } :=
        Exec.atLine_of_done ((Exec.bind_of_done started).trans (Exec.lift_ok run))
      rw [done run, done run']
      refine .done () ?_
      obtain rfl | ⟨s, j, left, right⟩ := held
      · exact .inl rfl
      · exact .inr ⟨rfl, b, s, j, based, left, right⟩
    · have failed {visits : ScriptEngine.Visits} {f : Fault} {t : Store}
          (run : (putBy visits base path n shape b root).run.run k.store = (.error f, t)) :
          writeMemberBy visits line base path v m = .failed (f.atLine line) { k with store := t } :=
        Exec.atLine_of_failed ((Exec.bind_of_done started).trans (Exec.lift_error run))
      rw [failed run, failed run', one trivial]
      exact .failed _ _ _
  · have same : writeMemberBy visits line base path v m = writeMemberBy visits' line base path v m :=
      Exec.atLine_congr (Exec.bind_congr_done fun start k found => absurd ⟨start, k, found⟩ started)
    rw [same]
    exact .one _

/-- With the entries visited in the order of their keys a member is written as it is. -/
theorem writeMemberBy_stored {line : Nat} {v : Value} : writeMemberBy .stored line base path v = writeMember line base path v := by
  have publish (declared : Shape) (b : Nat) (root : Node) : (liftM (publishBy .stored declared b root) : Exec Unit) = (do
      let fresh ← newBox root
      let checked ← conform declared fresh
      setBox b (← toNode checked)) := by
    unfold publishBy
    rw [conformBy_stored]
    simp only [Exec.lift_bind]
    rfl
  have put (b : Nat) (shape : Option Shape) (root n : Node) : (liftM (putBy .stored base path n shape b root) : Exec Unit) = (do
      match root with
      | .object a => setBelow base path n 0 path a
      | _ => throw (notObject base)
      match shape with
      | none => pure ()
      | some declared =>
        let fresh ← newBox root
        let checked ← conform declared fresh
        setBox b (← toNode checked)) := by
    unfold putBy
    rw [Exec.lift_bind]
    cases root with
    | object a =>
      rw [placeBy, setBelowBy_stored]
      refine bind_congr fun _ => ?_
      cases shape with
      | none => rfl
      | some declared => exact publish declared b _
    | _ =>
      cases shape with
      | none => rfl
      | some declared => exact bind_congr fun _ => publish declared b _
  refine congrArg (Exec.atLine line) ?_
  simp only [put, writeStart, bind_assoc]
  refine bind_congr fun b => bind_congr fun m => ?_
  generalize (m.store.lookup? m.scope base).bind (·.2.shape) = found
  cases found
  all_goals
    dsimp only
    rewrite [bind_assoc]
    refine bind_congr fun root => ?_
    rewrite [bind_assoc]
    refine bind_congr fun n => ?_
    rewrite [pure_bind]
    rfl

/-! ## All orders -/

/-- **Orders of entries.** A name stands for the same key in all orders exactly if it is clear. Along a clear path members are read
alike in all orders, and they are written alike where the shape that is declared, if there is one, fills in its defaults alike and
the faults agree. What a record type makes of a value is the same in all orders, or a fault in all orders, and one fault if those
agree that an entry or a default gives on its own. The order in which the program visits entries is one of them. -/
theorem visits_agree (visits visits' : ScriptEngine.Visits) :
    (∀ name (es : List (Text × Node)), (∀ es', es'.Perm es → findKey name es' = findKey name es) ↔ ClearIn name es) ∧
      (∀ line base path m, (∀ b k, memberBase base path m = .done b k → k.store.ClearAlong path (k.store.box b)) →
        readMemberBy visits base path line m = readMemberBy visits' base path line m) ∧
      (∀ line base path v m, (∀ b shape root n k, writeStart base path v m = .done (b, shape, root, n) k →
          Orderless base path n shape b root k.store) →
        SameOutcome (HeldAlike base path m) (writeMemberBy visits line base path v m) (writeMemberBy visits' line base path v m)) ∧
      (∀ s fields v, (Shape.record fields).Stays s → (∀ b, v = .json b → ∃ n j, s.boxes[b]? = some n ∧ s.Shows n j) →
        EndAlike (Agreed (Blamed s fields v)) (SameTree s) (conformBy visits (Shape.record fields).depth (.record fields) v)
          (conformBy visits' (Shape.record fields).depth (.record fields) v) s) ∧
      (∀ line base path, readMemberBy .stored base path line = readMember line base path) ∧
      (∀ line base path v, writeMemberBy .stored line base path v = writeMember line base path v) ∧
      ∀ shape, conformBy .stored shape.depth shape = conform shape := by
  refine ⟨fun name es => findKey_orders, fun line base path m clear => ?_, fun line base path v m orderless =>
    writeMemberBy_alike visits visits' orderless, fun s fields v stays tree => record_alike stays tree visits visits',
    fun line base path => readMemberBy_stored line, fun line base path v => writeMemberBy_stored, fun shape => ?_⟩
  · rw [readMemberBy_clear clear, readMemberBy_clear clear]
  · rw [conformBy_stored]
    rfl

/-- The fields of a record of a number and, by default, of an array. -/
def listedFields : List FieldShape := [.mk "a" .int none true 0 none, .mk "l" .any none false 0 (some (.array 0))]

/-- Memory with the array, and with json values that hold the first objects. -/
def listedMemory (objects : Array (List (Text × Node))) : Store :=
  { Store.initial with
    arrays := #[⟨.any, false, .boxed #[.int 7]⟩]
    boxes := #[.object 0, .object 1]
    objects := objects
    frames := #[⟨[("r", ⟨.json 0, false, some .json, some (.record listedFields)⟩)], none⟩] }

/-- A machine with a variable of the record, and a json value that has a key too many for it. -/
def listedMachine : Machine :=
  { Machine.initial (Host.initial default default) 10 "" with
    store := listedMemory #[[("a", .int 1)], [("a", .int 2), ("z", .int 3)]] }

theorem listed_stays (arrays : s.arrays = #[⟨.any, false, .boxed #[.int 7]⟩]) : (Shape.record listedFields).Stays s := by
  have lies : s.arrays[0]? = some ⟨.any, false, .boxed #[.int 7]⟩ := by
    rw [arrays]
    rfl
  have elements : List.Forall₂ s.Carries [.int 7] [.value (.int 7)] := .cons ⟨rfl, trivial⟩ .nil
  refine ⟨nofun, ?_, trivial⟩
  rintro d ⟨⟩
  exact array_stays lies elements rfl (.inr (.inl (.inl rfl)))

/-- When a number is given the only fault is that of a key too many. -/
theorem listed_agreed {a : Nat} {more : List (Text × Node)} (arrays : s.arrays = #[⟨.any, false, .boxed #[.int 7]⟩])
    (box : s.boxes[b]? = some (.object a)) (lies : s.objects[a]? = some (((("a" : Text), Node.int 2)) :: more))
    (extra : ∀ e ∈ more, e.1 = "z") : Agreed (Blamed s listedFields (.json b)) := by
  have one {f : Fault} (blamed : Blamed s listedFields (.json b) f) :
      f = Fault.wrongType ("field '" ++ "z" ++ "' is not declared in " ++ (Shape.record listedFields).describe) := by
    obtain ⟨e, he, unfit, visits, t, n, u, run⟩ := blamed.unfit (listed_stays arrays) box lies (by
      intro g hg d default
      obtain rfl | he := List.mem_cons.mp hg
      · cases default
      obtain rfl | he := List.mem_cons.mp he
      · cases default
        cases s
        cases arrays
        exact ⟨_, _, rfl⟩
      · cases he)
    obtain rfl | he := List.mem_cons.mp he
    · exact absurd rfl (unfit (.int 2) s)
    · obtain ⟨key, m⟩ := e
      obtain rfl : key = "z" := extra _ he
      cases run
      rfl
  exact fun f f' h h' => (one h).trans (one h').symm

theorem listed_orderless {b : Nat} {shape : Option Shape} {root n : Node} {k : Machine}
    (started : writeStart "r" ["a"] (.int 2) listedMachine = .done (b, shape, root, n) k) :
    Orderless "r" ["a"] n shape b root k.store := by
  have start : writeStart "r" ["a"] (.int 2) listedMachine = .done (0, some (.record listedFields), .object 2, .int 2)
    { listedMachine with store := listedMemory #[[("a", .int 1)], [("a", .int 2), ("z", .int 3)], [("a", .int 1)]] } := rfl
  cases start.symm.trans started
  refine ⟨⟨.inl ⟨_, List.mem_cons_self .., rfl⟩, fun _ _ => trivial⟩, fun declared t shaped placed => ?_⟩
  cases shaped
  have put : (placeBy .stored "r" ["a"] (.int 2) (.object 2)).run.run
      (listedMemory #[[("a", .int 1)], [("a", .int 2), ("z", .int 3)], [("a", .int 1)]]) =
    (.ok (), listedMemory #[[("a", .int 1)], [("a", .int 2), ("z", .int 3)], [("a", .int 2)]]) := rfl
  cases put.symm.trans placed
  refine ⟨Nat.zero_lt_two, ⟨.object [("a", .int 2)], .of_entries rfl (.cons ⟨rfl, .single rfl⟩ .nil)⟩, listed_stays rfl, ?_⟩
  rintro fields ⟨⟩
  exact listed_agreed rfl rfl rfl fun e he => absurd he List.not_mem_nil

theorem visits_agree_listed :
    (∀ es', es'.Perm [("A", Node.int 1)] → findKey "a" es' = findKey "a" [("A", Node.int 1)]) ∧
      readMemberBy .stored "r" ["A"] 1 listedMachine = readMemberBy .reversed "r" ["A"] 1 listedMachine ∧
      SameOutcome (HeldAlike "r" ["a"] listedMachine) (writeMemberBy .stored 1 "r" ["a"] (.int 2) listedMachine)
        (writeMemberBy .reversed 1 "r" ["a"] (.int 2) listedMachine) ∧
      ∃ f t t', (conformBy .stored (Shape.record listedFields).depth (.record listedFields) (.json 1)).run.run listedMachine.store =
          (.error f, t) ∧
        (conformBy .reversed (Shape.record listedFields).depth (.record listedFields) (.json 1)).run.run listedMachine.store =
          (.error f, t') := by
  obtain ⟨names, reads, writes, records, -⟩ := visits_agree .stored .reversed
  refine ⟨(names _ _).mpr (clearIn_single (Nat.le_refl 1)), reads 1 "r" ["A"] listedMachine ?_,
    writes 1 "r" ["a"] (.int 2) listedMachine fun b shape root n k => listed_orderless, ?_⟩
  · intro b k based
    have base : memberBase "r" ["A"] listedMachine = .done 0 listedMachine := rfl
    cases base.symm.trans based
    exact ⟨clearIn_single (Nat.le_refl 1), fun _ _ => trivial⟩
  · have tree : ∀ b, Value.json 1 = .json b → ∃ n j, listedMachine.store.boxes[b]? = some n ∧ listedMachine.store.Shows n j := by
      rintro b ⟨⟩
      exact ⟨.object 1, .object [("a", .int 2), ("z", .int 3)], rfl,
        .of_entries rfl (.cons ⟨rfl, .single rfl⟩ (.cons ⟨rfl, .single rfl⟩ .nil))⟩
    have agreed : Agreed (Blamed listedMachine.store listedFields (.json 1)) :=
      listed_agreed rfl rfl rfl fun e he => by rw [List.mem_singleton.mp he]
    obtain ⟨_, _, _, _, run, -⟩ | ⟨f, t, f', t', run, run', one⟩ :=
      records listedMachine.store listedFields (.json 1) (listed_stays rfl) tree
    · cases run
    · exact ⟨f, t, t', run, (one agreed).symm ▸ run'⟩

/-- Of two keys that agree with a name the one that is visited first is found, and of two fields that cannot be converted the one
that is visited first is reported. -/
theorem visits_differ :
    let m : Machine := { Machine.initial (Host.initial default default) 10 "" with
      store := { Store.initial with
        boxes := #[.object 0, .object 1]
        objects := #[[("Ab", .int 1), ("aB", .int 2)], [("a", .text "x"), ("b", .text "y")]]
        frames := #[⟨[("x", ⟨.json 0, false, none, none⟩)], none⟩] } }
    let shape : Shape := .record [.mk "a" .int none true 0 none, .mk "b" .int none true 0 none]
    (∃ es, es.Perm (m.store.object 0) ∧ findKey "ab" es ≠ findKey "ab" (m.store.object 0)) ∧
      readMemberBy .stored "x" ["ab"] 1 m = .done (.int 1) m ∧ readMemberBy .reversed "x" ["ab"] 1 m = .done (.int 2) m ∧
      ∃ f t f' t', (conformBy .stored shape.depth shape (.json 1)).run.run m.store = (.error f, t) ∧
        (conformBy .reversed shape.depth shape (.json 1)).run.run m.store = (.error f', t') ∧ f ≠ f' := by
  intro m shape
  exact ⟨⟨[("aB", .int 2), ("Ab", .int 1)], .swap .., by decide⟩, rfl, rfl, _, _, _, _, rfl, rfl, by decide⟩

end Writes

end Eval

end ScriptEngine
