import ScriptEngine.Proofs.JsonGrammar
import ScriptEngine.Proofs.LaterMemory
/-!
# Json texts are read by the grammar

A json tree that is put into memory lies there as it is, and stays while the objects and lists are kept.

Reading finds just the values of the grammar. A text is read as a tree when it is one value with white space around it,
and also when the end of a container follows the value: what is asked after a value is whether a container goes on, and
that is denied at its end, even where there is no container.
-/

namespace ScriptEngine

/-! ## Trees in memory -/

namespace Json

mutual

/-- How many containers lie in each other. -/
def depth : Json → Nat
  | list items => depthAll items + 1
  | object entries => depthEntries entries + 1
  | _ => 0

/-- How many containers lie in each other in some trees. -/
def depthAll : List Json → Nat
  | [] => 0
  | j :: js => max (depth j) (depthAll js)

/-- How many containers lie in each other in the values of an object. -/
def depthEntries : List (Text × Json) → Nat
  | [] => 0
  | (_, j) :: es => max (depth j) (depthEntries es)

end

end Json

/-- Memory in which the objects and lists of earlier memory are as they were. -/
structure Store.KeepsData (s t : Store) : Prop where
  objects : ∀ (a : Nat) (es : List (Text × Node)), s.objects[a]? = some es → t.objects[a]? = some es
  buffers : ∀ (b : Nat) (places : Array Node), s.buffers[b]? = some places → t.buffers[b]? = some places

namespace Store

variable {s t u : Store}

theorem KeepsData.refl (s : Store) : s.KeepsData s := ⟨fun _ _ h => h, fun _ _ h => h⟩

theorem KeepsData.trans (h : s.KeepsData t) (k : t.KeepsData u) : s.KeepsData u :=
  ⟨fun a es lies => k.objects a es (h.objects a es lies), fun b places lies => k.buffers b places (h.buffers b places lies)⟩

/-- The number of objects and lists in memory. -/
def containers (s : Store) : Nat := s.objects.size + s.buffers.size

/-- A node that is the root of a tree, in this memory and all that grows out of it. -/
def Roots (t : Store) (n : Node) (j : Json) : Prop := ∀ u, t.KeepsData u → ∀ d, j.depth ≤ d → u.treeTo d n = j

end Store

namespace StoreM

theorem run_newObject (es : List (Text × Node)) (s : Store) : ∃ a t, (newObject es).run.run s = (.ok (.object a), t) ∧
    s.KeepsData t ∧ t.containers = s.containers + 1 ∧ t.objects[a]? = some es := by
  refine ⟨_, _, rfl, ⟨fun a es lies => ?_, fun _ _ => id⟩, ?_, Array.getElem?_push_size⟩
  · rw [Array.getElem?_push, if_neg (Nat.ne_of_lt (Array.getElem?_eq_some_iff.mp lies).1)]
    exact lies
  · simp only [Store.containers, Array.size_push]
    omega

theorem run_newGrownList (ns : List Node) (s : Store) : ∃ b t places, (newGrownList ns).run.run s = (.ok (.list b ns.length), t) ∧
    s.KeepsData t ∧ t.containers = s.containers + 1 ∧ t.buffers[b]? = some places ∧ places.toList.take ns.length = ns := by
  refine ⟨_, _, _, rfl, ⟨fun _ _ => id, fun b places lies => ?_⟩, ?_, Array.getElem?_push_size, ?_⟩
  · rw [Array.getElem?_push, if_neg (Nat.ne_of_lt (Array.getElem?_eq_some_iff.mp lies).1)]
    exact lies
  · simp only [Store.containers, Array.size_push]
    omega
  · rw [Array.toList_append, List.take_left]

mutual

/-- A tree that is put into memory lies there. -/
theorem ofTree_roots : (j : Json) → (s : Store) → ∃ n t, (ofTree j).run.run s = (.ok n, t) ∧ s.KeepsData t ∧
    s.containers + j.depth ≤ t.containers ∧ t.Roots n j
  | .null, s => ⟨_, s, rfl, .refl s, Nat.le_refl _, fun _ _ _ _ => by rw [Store.treeTo]⟩
  | .bool b, s => ⟨_, s, rfl, .refl s, Nat.le_refl _, fun _ _ _ _ => by rw [Store.treeTo]⟩
  | .int n, s => ⟨_, s, rfl, .refl s, Nat.le_refl _, fun _ _ _ _ => by rw [Store.treeTo]⟩
  | .double x, s => ⟨_, s, rfl, .refl s, Nat.le_refl _, fun _ _ _ _ => by rw [Store.treeTo]⟩
  | .text t, s => ⟨_, s, rfl, .refl s, Nat.le_refl _, fun _ _ _ _ => by rw [Store.treeTo]⟩
  | .list items, s => by
    obtain ⟨ns, t, run, keeps, more, roots⟩ := ofTrees_roots items s
    obtain ⟨b, u, places, run', keeps', more', lies, items'⟩ := run_newGrownList ns t
    refine ⟨.list b ns.length, u, ?_, keeps.trans keeps', ?_, fun w later d deep => ?_⟩
    · rw [ofTree, ExceptT.run_bind, StateT.run_bind, run]
      exact run'
    · rw [Json.depth]
      omega
    · rw [Json.depth] at deep
      obtain ⟨d, rfl⟩ := Nat.exists_eq_add_of_lt deep
      rw [Store.treeTo, Store.items, Store.buffer, later.buffers b places lies, Option.getD_some, items',
        roots w (keeps'.trans later) _ (Nat.le_add_right ..)]
  | .object entries, s => by
    obtain ⟨ns, t, run, keeps, more, roots⟩ := ofEntries_roots entries s
    obtain ⟨a, u, run', keeps', more', lies⟩ := run_newObject ns t
    refine ⟨.object a, u, ?_, keeps.trans keeps', ?_, fun w later d deep => ?_⟩
    · rw [ofTree, ExceptT.run_bind, StateT.run_bind, run]
      exact run'
    · rw [Json.depth]
      omega
    · rw [Json.depth] at deep
      obtain ⟨d, rfl⟩ := Nat.exists_eq_add_of_lt deep
      rw [Store.treeTo, Store.object, later.objects a ns lies, Option.getD_some]
      exact congrArg Json.object (roots w (keeps'.trans later) _ (Nat.le_add_right ..))

theorem ofTrees_roots : (js : List Json) → (s : Store) → ∃ ns t, (ofTrees js).run.run s = (.ok ns, t) ∧ s.KeepsData t ∧
    s.containers + Json.depthAll js ≤ t.containers ∧ ∀ u, t.KeepsData u → ∀ d, Json.depthAll js ≤ d → ns.map (u.treeTo d) = js
  | [], s => ⟨[], s, rfl, .refl s, Nat.le_refl _, fun _ _ _ _ => rfl⟩
  | j :: js, s => by
    obtain ⟨n, t, run, keeps, more, roots⟩ := ofTree_roots j s
    obtain ⟨ns, u, run', keeps', more', roots'⟩ := ofTrees_roots js t
    refine ⟨n :: ns, u, ?_, keeps.trans keeps', ?_, fun w later d deep => ?_⟩
    · rw [ofTrees, ExceptT.run_bind, StateT.run_bind, run]
      change StateT.run (ExceptT.run (ofTrees js >>= _)) t = _
      rw [ExceptT.run_bind, StateT.run_bind, run']
      rfl
    · rw [Json.depthAll]
      omega
    · rw [Json.depthAll] at deep
      rw [List.map_cons, roots w (keeps'.trans later) d (by omega), roots' w later d (by omega)]

theorem ofEntries_roots : (es : List (Text × Json)) → (s : Store) → ∃ ns t, (ofEntries es).run.run s = (.ok ns, t) ∧ s.KeepsData t ∧
    s.containers + Json.depthEntries es ≤ t.containers ∧
    ∀ u, t.KeepsData u → ∀ d, Json.depthEntries es ≤ d → ns.map (fun e => (e.1, u.treeTo d e.2)) = es
  | [], s => ⟨[], s, rfl, .refl s, Nat.le_refl _, fun _ _ _ _ => rfl⟩
  | (k, j) :: es, s => by
    obtain ⟨n, t, run, keeps, more, roots⟩ := ofTree_roots j s
    obtain ⟨ns, u, run', keeps', more', roots'⟩ := ofEntries_roots es t
    refine ⟨(k, n) :: ns, u, ?_, keeps.trans keeps', ?_, fun w later d deep => ?_⟩
    · rw [ofEntries, ExceptT.run_bind, StateT.run_bind, run]
      change StateT.run (ExceptT.run (ofEntries es >>= _)) t = _
      rw [ExceptT.run_bind, StateT.run_bind, run']
      rfl
    · rw [Json.depthEntries]
      omega
    · rw [Json.depthEntries] at deep
      rw [List.map_cons, roots w (keeps'.trans later) d (by omega), roots' w later d (by omega)]

end

/-- A text that is read as a tree gives a json value that holds the tree. -/
theorem run_parseJson {text : Text} {j : Json} (read : Json.parse text = .ok j) (s : Store) :
    ∃ a t, (parseJson text).run.run s = (.ok (.json a), t) ∧ t.tree (t.box a) = j := by
  obtain ⟨n, t, run, -, more, roots⟩ := ofTree_roots j s
  refine ⟨t.boxes.size, { t with boxes := t.boxes.push n }, ?_, ?_⟩
  · rw [parseJson, read]
    dsimp only
    rw [ExceptT.run_bind, StateT.run_bind, run]
    rfl
  · rw [Store.box, Array.getElem?_push_size, Option.getD_some]
    have keeps : t.KeepsData { t with boxes := t.boxes.push n } := ⟨fun _ _ => id, fun _ _ => id⟩
    refine roots _ keeps _ ?_
    simp only [Store.nesting, Store.containers] at *
    omega

end StoreM

namespace Json

/-! ## Values -/

section Values

variable {number : List UInt8 → Json} {value : List UInt8 → Json → List UInt8 → Prop} {fuel depth n : Nat}
  {bs more rest : List UInt8} {b : UInt8} {j : Json}

theorem byte_of_char {c : Char} (h : Char.ofNat b.toNat = c) : b = c.toNat.toUInt8 := by
  subst h
  have small : b.toNat < 0xD800 := Nat.lt_of_lt_of_le b.toNat_lt (by decide)
  have same : (Char.ofNat b.toNat).toNat = b.toNat := by
    rw [Char.ofNat, dif_pos (.inl small)]
    rfl
  rw [same, ← UInt8.toNat_inj, UInt8.toNat_ofNat', Nat.mod_eq_of_lt b.toNat_lt]

theorem EndsNumber.of_blanks (blanks : Blanks bs rest) (ends : EndsNumber rest) : EndsNumber bs := by
  obtain ⟨ws, rfl, blank⟩ := blanks
  cases ws with
  | nil => exact ends
  | cons w ws =>
    rintro _ ⟨⟩
    have first := List.all_eq_true.mp blank w (List.mem_cons_self ..)
    simp only [isBlank, Bool.or_eq_true, decide_eq_true_eq] at first
    obtain ((rfl | rfl) | rfl) | rfl := first <;> decide

/-- What ends a part of a container ends a number. -/
theorem endsNumber_of_next (blanks : Blanks bs (b :: rest)) (next : b = 0x2C ∨ b = 0x5D ∨ b = 0x7D) : EndsNumber bs := by
  refine .of_blanks blanks ?_
  rintro _ ⟨⟩
  obtain rfl | rfl | rfl := next <;> decide

/-! ### Every value of the grammar is read -/

theorem Quoted.length_lt {content : List UInt8} (h : Quoted bs content rest) : rest.length < bs.length := by
  induction h with
  | close => exact Nat.lt_succ_self _
  | _ => simp only [List.length_cons] at *; omega

theorem Scalar.length_le (h : Scalar number bs j rest) : rest.length ≤ bs.length := by
  cases h with
  | text quoted => exact Nat.le_succ_of_le (Nat.le_of_lt quoted.length_lt)
  | _ => rw [List.length_append]; exact Nat.le_add_left ..

theorem Separated.length_lt {α : Type} {part : List UInt8 → α → List UInt8 → Prop} {close : UInt8} {xs : List α}
    (shrinks : ∀ bs x rest, part bs x rest → rest.length ≤ bs.length) (h : Separated part close bs xs rest) :
    rest.length < bs.length := by
  induction h with
  | last first ends => exact Nat.lt_of_lt_of_le ends.length_le (shrinks _ _ _ first)
  | next first goes_on _ ih => exact Nat.lt_trans ih (Nat.lt_of_lt_of_le goes_on.length_le (shrinks _ _ _ first))

theorem Item.length_le (shrinks : ∀ bs j rest, value bs j rest → rest.length ≤ bs.length) (h : Item value bs j rest) :
    rest.length ≤ bs.length := by
  obtain ⟨more, blanks, h⟩ := h
  exact Nat.le_trans (shrinks _ _ _ h) blanks.length_le

theorem Member.length_le (shrinks : ∀ bs j rest, value bs j rest → rest.length ≤ bs.length) {e : Text × Json}
    (h : Member value bs e rest) : rest.length ≤ bs.length := by
  obtain ⟨key, content, more, colon, before, quoted, -, between, item⟩ := h
  have := before.length_le
  have := quoted.length_lt
  have := between.length_le
  have := item.length_le shrinks
  simp only [List.length_cons] at *
  omega

theorem Spells.length_le {d : Nat} (h : Spells number d bs j rest) : rest.length ≤ bs.length := by
  induction d generalizing bs j rest with
  | zero => exact Scalar.length_le h
  | succ d ih =>
    obtain scalar | container := h
    · exact scalar.length_le
    · have shrinks : ∀ bs j rest, Spells number d bs j rest → rest.length ≤ bs.length := fun _ _ _ => ih
      cases container with
      | emptyList ends | emptyObject ends => exact Nat.le_succ_of_le (Nat.le_of_lt ends.length_le)
      | list items => exact Nat.le_succ_of_le (Nat.le_of_lt (items.length_lt fun _ _ _ => Item.length_le shrinks))
      | object members => exact Nat.le_succ_of_le (Nat.le_of_lt (members.length_lt fun _ _ _ => Member.length_le shrinks))

/-- What a number begins with is nothing that another value begins with. -/
theorem IsNumber.head_eq {literal : List UInt8} (h : IsNumber literal) :
    ∃ b behind, literal = b :: behind ∧ (b = 0x2D ∨ Text.isDigitByte b = true) := by
  obtain ⟨sign, whole, fraction, exponent, rfl, rfl | ⟨b, mem, rfl⟩, isWhole, -⟩ := h
  · obtain rfl | ⟨digits, -⟩ := isWhole
    · exact ⟨0x30, _, rfl, .inr rfl⟩
    · obtain ⟨b, behind, rfl, digit⟩ := digits.head_eq
      exact ⟨b, _, rfl, .inr digit⟩
  · obtain rfl := List.mem_singleton.mp mem
    exact ⟨0x2D, _, rfl, .inl rfl⟩

theorem not_isBlank_of_first (first : b = 0x2D ∨ Text.isDigitByte b = true) : isBlank b = false := by
  cases blank : isBlank b with
  | false => rfl
  | true =>
    simp only [isBlank, Bool.or_eq_true, decide_eq_true_eq] at blank
    obtain ((rfl | rfl) | rfl) | rfl := blank <;> obtain ⟨⟨⟩⟩ | ⟨⟨⟩⟩ := first

theorem readValue_of_scalar (blanks : Blanks bs more) (h : Scalar number more j rest) (ends : EndsNumber rest) :
    readValue number (fuel + 1) depth bs = .ok (j, rest) := by
  cases h with
  | null =>
    have word : readWord "null" "ull".toList ((Text.ofString "ull").bytes ++ rest) = .ok rest := (readWord_eq_ok rfl).mpr rfl
    rw [readValue, blanks.skip_cons (b := 0x6E) rfl]
    simp only [show Char.ofNat (0x6E : UInt8).toNat = 'n' from rfl]
    exact congrArg (· >>= fun rest => .ok (Json.null, rest)) word
  | true =>
    have word : readWord "true" "rue".toList ((Text.ofString "rue").bytes ++ rest) = .ok rest := (readWord_eq_ok rfl).mpr rfl
    rw [readValue, blanks.skip_cons (b := 0x74) rfl]
    simp only [show Char.ofNat (0x74 : UInt8).toNat = 't' from rfl]
    exact congrArg (· >>= fun rest => .ok (Json.bool Bool.true, rest)) word
  | false =>
    have word : readWord "false" "alse".toList ((Text.ofString "alse").bytes ++ rest) = .ok rest :=
      (readWord_eq_ok rfl).mpr rfl
    rw [readValue, blanks.skip_cons (b := 0x66) rfl]
    simp only [show Char.ofNat (0x66 : UInt8).toNat = 'f' from rfl]
    exact congrArg (· >>= fun rest => .ok (Json.bool Bool.false, rest)) word
  | text quoted =>
    rw [readValue, blanks.skip_cons (b := 0x22) rfl]
    simp only [show Char.ofNat (0x22 : UInt8).toNat = '"' from rfl]
    rw [readString_of_quoted quoted]
    dsimp only [bind, Except.bind]
    rw [List.append_nil, List.reverse_reverse]
  | @number literal rest formed =>
    obtain ⟨b, behind, rfl, first⟩ := formed.head_eq
    have other {c : Char} (same : Char.ofNat b.toNat = c) (notFirst : ¬(c.toNat.toUInt8 = 0x2D ∨ Text.isDigitByte c.toNat.toUInt8 = Bool.true)) : False :=
      notFirst (byte_of_char same ▸ first)
    rw [readValue, blanks.skip_cons (not_isBlank_of_first first)]
    dsimp only
    split
    all_goals try (rename_i same; exact (other same (by decide)).elim)
    rw [if_pos (by simpa using first), show b :: behind.append rest = (b :: behind) ++ rest from rfl,
      numberLength_of_isNumber formed ends]
    dsimp only [bind, Except.bind]
    rw [List.take_left, List.drop_left]

theorem items_of_separated {js done : List Json} (reads : ∀ bs j rest, Item value bs j rest → EndsNumber rest → bs.length < fuel →
      readValue number fuel (depth + 1) bs = .ok (j, rest))
    (shrinks : ∀ bs j rest, value bs j rest → rest.length ≤ bs.length) (h : Separated (Item value) 0x5D bs js rest)
    (short : bs.length < fuel) (room : bs.length < n) :
    readValue.items number fuel depth n done bs = .ok (.list (done.reverse ++ js), rest) := by
  induction h generalizing n done with
  | last first ends =>
    cases n with
    | zero => cases room
    | succ n =>
      rw [readValue.items, reads _ _ _ first (endsNumber_of_next ends (by decide)) short]
      dsimp only [bind, Except.bind]
      rw [ends.skip_cons (by decide), List.reverse_cons]
      rfl
  | next first goes_on _ ih =>
    cases n with
    | zero => cases room
    | succ n =>
      have shorter := goes_on.length_le
      have := Item.length_le shrinks first
      rw [List.length_cons] at shorter
      rw [readValue.items, reads _ _ _ first (endsNumber_of_next goes_on (by decide)) short]
      dsimp only [bind, Except.bind]
      rw [goes_on.skip_cons (by decide)]
      refine (ih (by omega) (by omega)).trans ?_
      rw [List.reverse_cons, List.append_assoc]
      rfl

/-- How the key and the value of a member are read. -/
theorem Member.reads {e : Text × Json} (reads : ∀ bs j rest, Item value bs j rest → EndsNumber rest → bs.length < fuel →
      readValue number fuel (depth + 1) bs = .ok (j, rest)) (h : Member value bs e rest) (ends : EndsNumber rest)
    (short : bs.length < fuel) : ∃ key content more colon, skipBlanks bs = 0x22 :: key ∧ readString key 0 [] = .ok (content, more) ∧
      repaired content.reverse = e.1 ∧ skipBlanks more = 0x3A :: colon ∧ readValue number fuel (depth + 1) colon = .ok (e.2, rest) := by
  obtain ⟨key, content, more, colon, before, quoted, same, between, item⟩ := h
  have := before.length_le
  have := quoted.length_lt
  have := between.length_le
  simp only [List.length_cons] at *
  refine ⟨key, _, more, colon, before.skip_cons (by decide), readString_of_quoted quoted [], ?_, between.skip_cons (by decide),
    reads _ _ _ item ends (by omega)⟩
  rw [List.append_nil, List.reverse_reverse, same]

theorem members_of_separated {es done : List (Text × Json)} (reads : ∀ bs j rest, Item value bs j rest → EndsNumber rest →
      bs.length < fuel → readValue number fuel (depth + 1) bs = .ok (j, rest))
    (shrinks : ∀ bs j rest, value bs j rest → rest.length ≤ bs.length) (h : Separated (Member value) 0x7D bs es rest)
    (short : bs.length < fuel) (room : bs.length < n) :
    readValue.members number fuel depth n done bs = .ok (.object (es.foldl (fun done e => insert e.1 e.2 done) done), rest) := by
  induction h generalizing n done with
  | last first ends =>
    cases n with
    | zero => cases room
    | succ n =>
      obtain ⟨key, content, more, colon, before, string, same, between, read⟩ :=
        first.reads reads (endsNumber_of_next ends (by decide)) short
      rw [readValue.members, before]
      change readString key 0 [] >>= _ = _
      rw [string]
      dsimp only [bind, Except.bind]
      rw [between]
      change readValue number fuel (depth + 1) colon >>= _ = _
      rw [read]
      dsimp only [bind, Except.bind]
      rw [ends.skip_cons (by decide), same]
      rfl
  | next first goes_on _ ih =>
    cases n with
    | zero => cases room
    | succ n =>
      obtain ⟨key, content, more, colon, before, string, same, between, read⟩ :=
        first.reads reads (endsNumber_of_next goes_on (by decide)) short
      have shorter := goes_on.length_le
      have := Member.length_le shrinks first
      rw [List.length_cons] at shorter
      rw [readValue.members, before]
      change readString key 0 [] >>= _ = _
      rw [string]
      dsimp only [bind, Except.bind]
      rw [between]
      change readValue number fuel (depth + 1) colon >>= _ = _
      rw [read]
      dsimp only [bind, Except.bind]
      rw [goes_on.skip_cons (by decide), same]
      exact ih (by omega) (by omega)

/-- A value begins with no white space and not with the end of a container. -/
theorem Spells.head_eq {d : Nat} (h : Spells number d bs j rest) : ∃ b behind, bs = b :: behind ∧ isBlank b = false ∧ b ≠ 0x5D := by
  have scalar (h : Scalar number bs j rest) : ∃ b behind, bs = b :: behind ∧ isBlank b = false ∧ b ≠ 0x5D := by
    cases h with
    | number formed =>
      obtain ⟨b, behind, rfl, first⟩ := formed.head_eq
      refine ⟨b, _, rfl, not_isBlank_of_first first, ?_⟩
      rintro rfl
      obtain ⟨⟨⟩⟩ | ⟨⟨⟩⟩ := first
    | _ => exact ⟨_, _, rfl, rfl, by decide⟩
  cases d with
  | zero => exact scalar h
  | succ d =>
    obtain h | container := h
    · exact scalar h
    · cases container <;> exact ⟨_, _, rfl, rfl, by decide⟩

theorem Separated.first {α : Type} {part : List UInt8 → α → List UInt8 → Prop} {close : UInt8} {xs : List α}
    (h : Separated part close bs xs rest) : ∃ x more, part bs x more := by
  cases h with
  | last first _ | next first _ _ => exact ⟨_, _, first⟩

/-- **Every value of the grammar is read** as what it stands for, up to the text behind it. -/
theorem readValue_of_spells {d : Nat} (blanks : Blanks bs more) (h : Spells number d more j rest) (ends : EndsNumber rest)
    (level : d + depth = maxDepth) (short : bs.length < fuel) : readValue number fuel depth bs = .ok (j, rest) := by
  induction d generalizing fuel depth bs more j rest with
  | zero =>
    cases fuel with
    | zero => cases short
    | succ fuel => exact readValue_of_scalar blanks h ends
  | succ d ih =>
    cases fuel with
    | zero => cases short
    | succ fuel =>
      have reads : ∀ bs j rest, Item (Spells number d) bs j rest → EndsNumber rest → bs.length < fuel →
          readValue number fuel (depth + 1) bs = .ok (j, rest) := by
        rintro bs j rest ⟨more, blanks, h⟩ ends short
        exact ih blanks h ends (by omega) short
      have shrinks : ∀ bs j rest, Spells number d bs j rest → rest.length ≤ bs.length := fun _ _ _ => Spells.length_le
      have inside : ¬depth ≥ maxDepth := by omega
      have size := blanks.length_le
      obtain scalar | container := h
      · exact readValue_of_scalar blanks scalar ends
      cases container with
      | emptyList close =>
        rw [readValue, blanks.skip_cons (by decide)]
        simp only [show Char.ofNat (0x5B : UInt8).toNat = '[' from rfl]
        rw [if_neg inside, close.skip_cons (by decide)]
        rfl
      | list items =>
        rw [List.length_cons] at size
        rw [readValue, blanks.skip_cons (by decide)]
        simp only [show Char.ofNat (0x5B : UInt8).toNat = '[' from rfl]
        rw [if_neg inside]
        split
        · rename_i empty
          obtain ⟨_, _, start, before, first⟩ := items.first
          obtain ⟨b, behind, rfl, solid, other⟩ := first.head_eq
          rw [before.skip_cons solid] at empty
          exact absurd (List.cons.inj empty).1 other
        · exact items_of_separated reads shrinks items (by omega) (by omega)
      | emptyObject close =>
        rw [readValue, blanks.skip_cons (by decide)]
        simp only [show Char.ofNat (0x7B : UInt8).toNat = '\x7b' from rfl]
        rw [if_neg inside, close.skip_cons (by decide)]
        rfl
      | object members =>
        rw [List.length_cons] at size
        rw [readValue, blanks.skip_cons (by decide)]
        simp only [show Char.ofNat (0x7B : UInt8).toNat = '\x7b' from rfl]
        rw [if_neg inside]
        split
        · rename_i empty
          obtain ⟨_, _, _, _, _, _, before, -⟩ := members.first
          rw [before.skip_cons (by decide)] at empty
          cases empty
        · exact members_of_separated reads shrinks members (by omega) (by omega)

/-! ### What is read is a value of the grammar -/

theorem blanks_of_skip (h : skipBlanks bs = more) : Blanks bs more := h ▸ blanks_skip bs

theorem separated_of_items {done : List Json}
    (reads : ∀ bs j rest, readValue number fuel (depth + 1) bs = .ok (j, rest) → Item value bs j rest)
    (h : readValue.items number fuel depth n done bs = .ok (j, rest)) :
    ∃ js, j = .list (done.reverse ++ js) ∧ Separated (Item value) 0x5D bs js rest := by
  induction n generalizing done bs with
  | zero =>
    rw [readValue.items] at h
    cases h
  | succ n ih =>
    rw [readValue.items] at h
    obtain ⟨⟨v, more⟩, read, h⟩ := read_bind_ok h
    have first := reads _ _ _ read
    dsimp only at h
    split at h
    · cases h
    · rename_i next
      obtain ⟨js, rfl, others⟩ := ih h
      exact ⟨v :: js, by rw [List.reverse_cons, List.append_assoc]; rfl, .next first (blanks_of_skip next) others⟩
    · rename_i next
      cases h
      exact ⟨[v], by rw [List.reverse_cons], .last first (blanks_of_skip next)⟩
    · cases h

theorem separated_of_members {done : List (Text × Json)}
    (reads : ∀ bs j rest, readValue number fuel (depth + 1) bs = .ok (j, rest) → Item value bs j rest)
    (h : readValue.members number fuel depth n done bs = .ok (j, rest)) :
    ∃ es, j = .object (es.foldl (fun done e => insert e.1 e.2 done) done) ∧ Separated (Member value) 0x7D bs es rest := by
  induction n generalizing done bs with
  | zero =>
    rw [readValue.members] at h
    cases h
  | succ n ih =>
    rw [readValue.members] at h
    split at h
    · cases h
    · rename_i key before
      obtain ⟨⟨content, more⟩, string, h⟩ := read_bind_ok h
      obtain ⟨content, rfl, quoted⟩ := quoted_of_readString string
      dsimp only at h
      split at h
      · cases h
      · rename_i colon between
        obtain ⟨⟨v, more⟩, read, h⟩ := read_bind_ok h
        have first : Member value bs (repaired content, v) more :=
          ⟨key, content, _, colon, blanks_of_skip before, quoted, rfl, blanks_of_skip between, reads _ _ _ read⟩
        dsimp only at h
        rw [List.append_nil, List.reverse_reverse] at h
        split at h
        · cases h
        · rename_i next
          obtain ⟨es, rfl, others⟩ := ih h
          exact ⟨(repaired content, v) :: es, rfl, .next first (blanks_of_skip next) others⟩
        · rename_i next
          cases h
          exact ⟨[(repaired content, v)], rfl, .last first (blanks_of_skip next)⟩
        · cases h
      · cases h
    · cases h

/-- **What is read is a value of the grammar.** -/
theorem spells_of_readValue (h : readValue number fuel depth bs = .ok (j, rest)) :
    Item (Spells number (maxDepth - depth)) bs j rest := by
  induction fuel generalizing depth bs j rest with
  | zero =>
    rw [readValue] at h
    cases h
  | succ fuel ih =>
    have scalar {more : List UInt8} (blanks : Blanks bs more) (h : Scalar number more j rest) :
        Item (Spells number (maxDepth - depth)) bs j rest := by
      refine ⟨more, blanks, ?_⟩
      cases maxDepth - depth with
      | zero => exact h
      | succ d => exact .inl h
    have container (inside : ¬depth ≥ maxDepth) {more : List UInt8} (blanks : Blanks bs more)
        (h : Container (Spells number (maxDepth - (depth + 1))) more j rest) : Item (Spells number (maxDepth - depth)) bs j rest := by
      refine ⟨more, blanks, ?_⟩
      rw [show maxDepth - depth = maxDepth - (depth + 1) + 1 by omega]
      exact .inr h
    rw [readValue] at h
    split at h
    · cases h
    · rename_i b more start
      have blanks := blanks_of_skip start
      dsimp only at h
      split at h
      · rename_i same
        cases byte_of_char same
        split at h
        · cases h
        · rename_i inside
          refine container inside blanks ?_
          split at h
          · rename_i close
            cases h
            exact .emptyObject (blanks_of_skip close)
          · obtain ⟨es, rfl, members⟩ := separated_of_members (fun _ _ _ => ih) h
            exact .object members
      · rename_i same
        cases byte_of_char same
        split at h
        · cases h
        · rename_i inside
          refine container inside blanks ?_
          split at h
          · rename_i close
            cases h
            exact .emptyList (blanks_of_skip close)
          · obtain ⟨js, rfl, items⟩ := separated_of_items (fun _ _ _ => ih) h
            exact .list items
      · rename_i same
        cases byte_of_char same
        obtain ⟨⟨content, more⟩, string, h⟩ := read_bind_ok h
        obtain ⟨content, rfl, quoted⟩ := quoted_of_readString string
        dsimp only at h
        rw [List.append_nil, List.reverse_reverse] at h
        cases h
        exact scalar blanks (.text quoted)
      · rename_i same
        cases byte_of_char same
        obtain ⟨more, word, h⟩ := read_bind_ok h
        cases h
        obtain rfl := (readWord_eq_ok rfl).mp word
        exact scalar blanks .true
      · rename_i same
        cases byte_of_char same
        obtain ⟨more, word, h⟩ := read_bind_ok h
        cases h
        obtain rfl := (readWord_eq_ok rfl).mp word
        exact scalar blanks .false
      · rename_i same
        cases byte_of_char same
        obtain ⟨more, word, h⟩ := read_bind_ok h
        cases h
        obtain rfl := (readWord_eq_ok rfl).mp word
        exact scalar blanks .null
      · split at h
        · obtain ⟨n, isNumber, h⟩ := read_bind_ok h
          cases h
          refine scalar blanks ?_
          conv => arg 2; rw [← List.take_append_drop n (b :: more)]
          exact .number (isNumber_of_numberLength isNumber)
        · cases h

end Values

/-! ## Texts -/

section Texts

variable {t : Text} {j : Json} {bs rest : List UInt8}

theorem readFirst_of_spells {number : List UInt8 → Json} (blanks : Blanks t.bytes bs) (h : Spells number maxDepth bs j rest)
    (ends : EndsNumber rest) : readFirst number t = .ok (j, rest) := by
  obtain ⟨b, behind, rfl, solid, -⟩ := h.head_eq
  rw [readFirst, blanks.skip_cons solid, if_neg (show ¬(b :: behind).isEmpty = true from Bool.false_ne_true)]
  exact readValue_of_spells blanks h ends rfl (Nat.lt_succ_self _)

theorem spells_of_readFirst {number : List UInt8 → Json} (h : readFirst number t = .ok (j, rest)) :
    Item (Spells number maxDepth) t.bytes j rest := by
  unfold readFirst at h
  split at h
  · cases h
  · exact spells_of_readValue h

theorem moreFollows_eq_false : moreFollows rest = false ↔
    Blanks rest [] ∨ ∃ b more, Blanks rest (b :: more) ∧ (b = 0x5D ∨ b = 0x7D) := by
  unfold moreFollows
  constructor
  · intro h
    split at h
    · rename_i none
      exact .inl (blanks_of_skip none)
    · rename_i b more next
      refine .inr ⟨b, more, blanks_of_skip next, ?_⟩
      simp only [ne_eq, Bool.and_eq_false_iff, decide_eq_false_iff_not, not_not] at h
      exact h
  · rintro (none | ⟨b, more, next, close⟩)
    · rw [none.skip_nil]
    · rw [next.skip_cons (by obtain rfl | rfl := close <;> decide)]
      obtain rfl | rfl := close <;> rfl

/-- What a text must be to be read as a tree. -/
theorem parse_eq_ok : parse t = .ok j ↔ Document t j ∨ Closed t j := by
  have same : parse t = .ok j ↔ ∃ bs rest, Blanks t.bytes bs ∧ Spells exactNumber maxDepth bs j rest ∧ moreFollows rest = false := by
    unfold parse
    constructor
    · intro h
      split at h
      · cases h
      · rename_i v rest read
        obtain ⟨bs, blanks, spells⟩ := spells_of_readFirst read
        split at h
        · cases h
        · rename_i none
          cases h
          exact ⟨bs, rest, blanks, spells, Bool.eq_false_iff.mpr none⟩
    · rintro ⟨bs, rest, blanks, spells, none⟩
      have ends : EndsNumber rest := by
        obtain none | ⟨b, more, next, close⟩ := moreFollows_eq_false.mp none
        · exact .of_blanks none (by rintro _ ⟨⟩)
        · exact endsNumber_of_next next (.inr close)
      rw [readFirst_of_spells blanks spells ends]
      dsimp only
      rw [none, if_neg Bool.false_ne_true]
  rw [same]
  constructor
  · rintro ⟨bs, rest, blanks, spells, none⟩
    obtain none | ⟨b, more, next, close⟩ := moreFollows_eq_false.mp none
    · exact .inl ⟨bs, rest, blanks, spells, none⟩
    · exact .inr ⟨bs, rest, b, more, blanks, spells, next, close⟩
  · rintro (⟨bs, rest, blanks, spells, none⟩ | ⟨bs, rest, b, more, blanks, spells, next, close⟩)
    · exact ⟨bs, rest, blanks, spells, moreFollows_eq_false.mpr (.inl none)⟩
    · exact ⟨bs, rest, blanks, spells, moreFollows_eq_false.mpr (.inr ⟨b, more, next, close⟩)⟩

end Texts

end Json

namespace StoreM

theorem run_parseJson_error {text why : Text} (read : Json.parse text = .error why) (s : Store) :
    (parseJson text).run.run s = (.error (Fault.raised Fault.parseError ("invalid json: " ++ why)), s) := by
  rw [parseJson, read]
  rfl

/-- **The texts that give a json value.** They are those that are one value with white space around it, which gives a json value
that holds its tree, and those that go on behind the value with the end of a container. Every other text is a fault of its own
category, and leaves memory as it was. -/
theorem parseJson_accepts (text : Text) (s : Store) :
    (∀ j, (∃ a t, (parseJson text).run.run s = (.ok (.json a), t) ∧ t.tree (t.box a) = j) ↔
        Json.Document text j ∨ Json.Closed text j) ∧
      ((∃ j, Json.Document text j ∨ Json.Closed text j) ∨
        ∃ why, (parseJson text).run.run s = (.error (Fault.raised Fault.parseError ("invalid json: " ++ why)), s)) := by
  simp only [← Json.parse_eq_ok]
  cases read : Json.parse text with
  | ok j =>
    obtain ⟨a, t, run, tree⟩ := run_parseJson read s
    refine ⟨fun j' => ?_, .inl ⟨j, rfl⟩⟩
    constructor
    · rintro ⟨a', t', run', rfl⟩
      cases run.symm.trans run'
      rw [tree]
    · rintro ⟨⟩
      exact ⟨a, t, run, tree⟩
  | error why =>
    have run := run_parseJson_error read s
    refine ⟨fun j => ?_, .inr ⟨why, run⟩⟩
    constructor
    · rintro ⟨a, t, run', -⟩
      cases run.symm.trans run'
    · rintro ⟨⟩

theorem spells_one (rest : List UInt8) : Json.Spells Json.exactNumber Json.maxDepth (0x31 :: rest) (.int 1) rest := by
  have isNumber : Json.IsNumber [0x31] :=
    ⟨[], [0x31], [], [], rfl, .inl rfl, .inr ⟨⟨List.cons_ne_nil _ _, rfl⟩, by decide⟩, .inl rfl, .inl rfl⟩
  exact (Json.Scalar.number isNumber).spells Json.maxDepth

/-- The end of a list may follow a value that lies in no list. -/
theorem parseJson_accepts_bracket : (∃ a t, (parseJson "1]").run.run Store.initial = (.ok (.json a), t)) ∧
    ¬∃ j, Json.Document "1]" j := by
  have bracket : Json.Blanks [0x5D] [0x5D] := .refl _
  constructor
  · have closed : Json.Closed "1]" (.int 1) := ⟨_, _, _, _, .refl _, spells_one [0x5D], bracket, .inl rfl⟩
    obtain ⟨a, t, run, -⟩ := run_parseJson (Json.parse_eq_ok.mpr (.inr closed)) Store.initial
    exact ⟨a, t, run⟩
  · rintro ⟨j, bs, rest, blanks, spells, none⟩
    -- what is read at the front of a text is the same for every way to read it
    have read := Json.readFirst_of_spells (.refl _) (spells_one [0x5D]) (Json.endsNumber_of_next bracket (.inr (.inl rfl)))
    cases read.symm.trans (Json.readFirst_of_spells blanks spells (.of_blanks none (by rintro _ ⟨⟩)))
    cases none.skip_nil

end StoreM

end ScriptEngine
