import Mathlib.Data.List.Forall2
import Mathlib.Data.List.Induction
import Mathlib.Data.List.Lex
import Mathlib.Data.List.Sort
import ScriptEngine.Program.Stmt
/-!
# Places in a program

A program is made of parts, and each part of smaller ones, in the order of the source. A place in a part is the list of the numbers
by which one goes down to it, so that the lexicographic order of places is the order in which the parts at them begin: a part comes
before the parts below it, and these come one after the other.

Types that a program declares are parts, too, with the lengths of their dimensions and the defaults of their fields below them.
-/

namespace ScriptEngine

/-- The parts of a program. -/
inductive Part where
  | program (p : Program)
  | stmt (s : Stmt)
  | block (b : Block)
  | handler (h : Handler)
  | expr (e : Expr)
  | param (p : Param)
  | type (t : TypeSpec)
  | field (f : FieldSpec)

namespace Part

/-- The part that may be left out. -/
def maybe {α : Type} (part : α → Part) (o : Option α) : List Part := (o.map part).toList

/-- The parts that a part is made of, in the order of the source. -/
def children : Part → List Part
  | program p => p.body.map stmt
  | block b => b.body.map stmt
  | handler h => [block h.body]
  | param p => maybe type p.type ++ maybe expr p.fallback
  | type t => t.dims.flatMap (maybe expr) ++ (t.fields.getD []).map field
  | field (.mk _ t _ _ e) => type t :: maybe expr e
  | expr e =>
    match e with
    | .name .. | .int .. | .long .. | .double .. | .string .. | .date .. | .bool .. | .null .. => []
    | .array _ es => es.map expr
    | .object _ ps => ps.map fun p => expr p.2
    | .unary _ _ e | .length _ e | .typeOf _ e | .step _ _ e => [expr e]
    | .binary _ _ l r | .assign _ _ l r | .index _ l r => [expr l, expr r]
    | .member m base _ => [expr (.name m base)]
    | .call _ _ args _ _ _ => args.map expr
  | stmt s =>
    match s with
    | .declare _ _ t value _ => maybe type t ++ maybe expr value
    | .typedef _ _ t => [type t]
    | .returns _ value => maybe expr value
    | .expr _ e | .print _ e | .call _ e => [expr e]
    | .function _ _ params result body => params.map param ++ maybe type result ++ [block body]
    | .block b => [block b]
    | .cond _ test yes no => expr test :: stmt yes :: maybe stmt no
    | .whileLoop _ test body => [expr test, block body]
    | .doLoop _ body test => [block body, expr test]
    | .forLoop _ init test update body => maybe stmt init ++ maybe expr test ++ maybe expr update ++ [block body]
    | .forEach _ _ e body => [expr e, block body]
    | .breaks .. | .continues .. | .imports .. => []
    | .tries _ body handlers => block body :: handlers.map handler
    | .raise _ _ args => args.map expr

/-- Whether a part is a declared type, or a field of one. -/
def isDeclared : Part → Bool
  | type _ | field _ => true
  | _ => false

/-- The part at a place. -/
def at? : List Nat → Part → Option Part
  | [], q => some q
  | i :: path, q => q.children[i]?.bind (at? path)

/-- A place that is not in a declared type. -/
def Outside (q : Part) (path : List Nat) : Prop := ∀ front r, front <+: path → q.at? front = some r → r.isDeclared = false

/-- What is told of the parts at the places that are kept, in the order of the places and once for each. -/
def Lists {α : Type} (q : Part) (keep : List Nat → Prop) (tell : Part → Option α) (xs : List α) : Prop :=
  ∃ paths, paths.Pairwise (· < ·) ∧ (∀ path, path ∈ paths ↔ keep path ∧ ((q.at? path).bind tell).isSome = true) ∧
    List.Forall₂ (fun path x => (q.at? path).bind tell = some x) paths xs

variable {q c : Part} {i : Nat} {path : List Nat}

/-! ## Induction -/

/-- Parts that are smaller than a number. -/
def Under (n : Nat) (cs : List Part) : Prop := ∀ c ∈ cs, sizeOf c < n

section Under

variable {α : Type} [SizeOf α] {part : α → Part} {cs ds : List Part} {n : Nat}

@[simp] theorem under_nil : Under n [] := fun _ mem => absurd mem List.not_mem_nil

@[simp] theorem under_cons : Under n (c :: cs) ↔ sizeOf c < n ∧ Under n cs := List.forall_mem_cons

@[simp] theorem under_append : Under n (cs ++ ds) ↔ Under n cs ∧ Under n ds := List.forall_mem_append

theorem under_maybe {o : Option α} (size : ∀ a, sizeOf (part a) = 1 + sizeOf a) (h : sizeOf o < n) : Under n (maybe part o) := by
  cases o with
  | none => exact under_nil
  | some a =>
    rw [Option.some.sizeOf_spec, ← size] at h
    exact under_cons.mpr ⟨h, under_nil⟩

theorem under_map {as : List α} (size : ∀ a, sizeOf (part a) = 1 + sizeOf a) (h : sizeOf as < n) : Under n (as.map part) := by
  intro c mem
  obtain ⟨a, ha, rfl⟩ := List.mem_map.mp mem
  have := List.sizeOf_lt_of_mem ha
  rw [size]
  omega

theorem under_pairs {ps : List (Text × Expr)} (h : sizeOf ps < n) : Under n (ps.map fun p => expr p.2) := by
  intro c mem
  obtain ⟨⟨k, e⟩, hp, rfl⟩ := List.mem_map.mp mem
  have := List.sizeOf_lt_of_mem hp
  rw [Prod.mk.sizeOf_spec] at this
  show 1 + sizeOf e < n
  omega

theorem under_dims {dims : List (Option Expr)} (h : sizeOf dims < n) : Under n (dims.flatMap (maybe expr)) := by
  intro c mem
  obtain ⟨o, ho, there⟩ := List.mem_flatMap.mp mem
  have := List.sizeOf_lt_of_mem ho
  exact under_maybe (fun _ => rfl) (by omega) c there

end Under

theorem under_children_expr (e : Expr) : Under (sizeOf (expr e)) (expr e).children := by
  cases e with
  | array m es => exact under_map (fun _ => rfl) (by simp; omega)
  | object m ps => exact under_pairs (by simp; omega)
  | call m f args names builtin result => exact under_map (fun _ => rfl) (by simp; omega)
  | member m base path =>
    have : 0 < sizeOf path := by cases path <;> simp +arith
    simp [children]
    omega
  | _ => simp [children] <;> omega

theorem under_children_stmt (s : Stmt) : Under (sizeOf (stmt s)) (stmt s).children := by
  cases s with
  | declare m name t value constant =>
    exact under_append.mpr ⟨under_maybe (fun _ => rfl) (by simp; omega), under_maybe (fun _ => rfl) (by simp; omega)⟩
  | returns m value => exact under_maybe (fun _ => rfl) (by simp; omega)
  | function m name params result body =>
    refine under_append.mpr ⟨under_append.mpr ⟨?_, ?_⟩, under_cons.mpr ⟨by simp only [stmt.sizeOf_spec, block.sizeOf_spec, Stmt.function.sizeOf_spec]; omega, under_nil⟩⟩
    · exact under_map (fun _ => rfl) (by simp; omega)
    · exact under_maybe (fun _ => rfl) (by simp; omega)
  | cond m test yes no =>
    refine under_cons.mpr ⟨by simp; omega, under_cons.mpr ⟨by simp; omega, ?_⟩⟩
    exact under_maybe (fun _ => rfl) (by simp; omega)
  | forLoop m init test update body =>
    refine under_append.mpr ⟨under_append.mpr ⟨under_append.mpr ⟨?_, ?_⟩, ?_⟩, under_cons.mpr ⟨by simp only [stmt.sizeOf_spec, block.sizeOf_spec, Stmt.forLoop.sizeOf_spec]; omega, under_nil⟩⟩
    · exact under_maybe (fun _ => rfl) (by simp; omega)
    · exact under_maybe (fun _ => rfl) (by simp; omega)
    · exact under_maybe (fun _ => rfl) (by simp; omega)
  | tries m body handlers => exact under_cons.mpr ⟨by simp; omega, under_map (fun _ => rfl) (by simp; omega)⟩
  | raise m category args => exact under_map (fun _ => rfl) (by simp; omega)
  | _ => simp [children] <;> omega

/-- What a part is made of is smaller. -/
theorem under_children (q : Part) : Under (sizeOf q) q.children := by
  cases q with
  | expr e => exact under_children_expr e
  | stmt s => exact under_children_stmt s
  | program p =>
    cases p
    exact under_map (fun _ => rfl) (by simp; omega)
  | block b =>
    cases b
    exact under_map (fun _ => rfl) (by simp [Block.body]; omega)
  | handler h =>
    cases h
    exact under_cons.mpr ⟨by simp only [Handler.body, handler.sizeOf_spec, block.sizeOf_spec, Handler.mk.sizeOf_spec]; omega, under_nil⟩
  | param p =>
    cases p
    exact under_append.mpr ⟨under_maybe (fun _ => rfl) (by simp; omega), under_maybe (fun _ => rfl) (by simp; omega)⟩
  | type t =>
    cases t with
    | mk m name isArray dims sorted fields =>
      refine under_append.mpr ⟨under_dims (by simp [TypeSpec.dims]; omega), ?_⟩
      cases fields with
      | none => exact under_nil
      | some fs => exact under_map (fun _ => rfl) (by simp [TypeSpec.fields]; omega)
  | field f =>
    cases f
    exact under_cons.mpr ⟨by simp; omega, under_maybe (fun _ => rfl) (by simp; omega)⟩

/-- What is true of each part that is made of parts of which it is true is true of all parts. -/
theorem induction {motive : Part → Prop} (step : ∀ q, (∀ c ∈ q.children, motive c) → motive q) (q : Part) : motive q :=
  step q fun c mem =>
    have : sizeOf c < sizeOf q := under_children q c mem
    induction step c
termination_by sizeOf q

/-! ## Places -/

theorem at?_cons (q : Part) (i : Nat) (path : List Nat) : q.at? (i :: path) = q.children[i]?.bind (at? path) := rfl

/-- Nothing of a declared type is outside of one. -/
theorem not_outside (declared : q.isDeclared = true) : ¬q.Outside path := by
  intro outside
  have := outside [] q List.nil_prefix rfl
  rw [declared] at this
  cases this

/-- What is outside of the declared types of a part is so of those of the parts that it is made of. -/
theorem outside_cons (plain : q.isDeclared = false) (child : q.children[i]? = some c) : q.Outside (i :: path) ↔ c.Outside path := by
  constructor
  · intro outside front r front_le there
    refine outside (i :: front) r (List.cons_prefix_cons.mpr ⟨rfl, front_le⟩) ?_
    rw [at?_cons, child]
    exact there
  · intro outside front r front_le there
    cases front with
    | nil =>
      obtain rfl := Option.some.inj there
      exact plain
    | cons j front =>
      obtain ⟨rfl, le⟩ := List.cons_prefix_cons.mp front_le
      rw [at?_cons, child] at there
      exact outside front r le there

theorem outside_nil (plain : q.isDeclared = false) : q.Outside [] := by
  intro front r front_le there
  obtain rfl := List.prefix_nil.mp front_le
  obtain rfl := Option.some.inj there
  exact plain

/-- A part outside the declared types that is made of such parts has no declared types. -/
theorem outside_of_children (plain : q.isDeclared = false) (each : ∀ c ∈ q.children, ∀ path, c.Outside path) (path : List Nat) :
    q.Outside path := by
  cases path with
  | nil => exact outside_nil plain
  | cons i path =>
    cases there : q.children[i]? with
    | some c => exact (outside_cons plain there).mpr (each c (List.mem_of_getElem? there) path)
    | none =>
      intro front r front_le found
      cases front with
      | nil => exact outside_nil plain [] r List.nil_prefix found
      | cons j front =>
        obtain ⟨rfl, -⟩ := List.cons_prefix_cons.mp front_le
        rw [at?_cons, there] at found
        cases found

/-! ## Lists of what is told -/

section Lists

variable {α β : Type} {tell : Part → Option α} {keep keep' : List Nat → Prop} {x : α} {xs : List α}

/-- A place below a list of parts: the number of one of them, and then a place in that one. -/
def Below (cs : List Part) (path : List Nat) (is : Part → List Nat → Prop) : Prop :=
  ∃ i rest c, path = i :: rest ∧ cs[i]? = some c ∧ is c rest

/-- What is told of the parts at the places below a list of parts. -/
theorem lists_below (cs : List Part) (xss : Part → List α) (each : ∀ c ∈ cs, c.Lists c.Outside tell (xss c)) :
    ∃ paths, paths.Pairwise (· < ·) ∧
      (∀ path, path ∈ paths ↔ Below cs path fun c rest => c.Outside rest ∧ ((c.at? rest).bind tell).isSome = true) ∧
      List.Forall₂ (fun path x => Below cs path fun c rest => (c.at? rest).bind tell = some x) paths (cs.flatMap xss) := by
  induction cs using List.reverseRecOn with
  | nil =>
    refine ⟨[], .nil, ?_, .nil⟩
    intro path
    constructor
    · intro mem
      exact absurd mem List.not_mem_nil
    · rintro ⟨i, rest, c, -, there, -⟩
      cases there
  | append_singleton cs c ih =>
    obtain ⟨before, rising, inside, told⟩ := ih fun d mem => each d (List.mem_append_left _ mem)
    obtain ⟨own, ownRising, ownInside, ownTold⟩ := each c (by simp)
    have last : (cs ++ [c])[cs.length]? = some c := List.getElem?_concat_length
    have earlier {i : Nat} {d : Part} (there : cs[i]? = some d) : (cs ++ [c])[i]? = some d := by
      rw [List.getElem?_append_left (List.getElem?_eq_some_iff.mp there).1, there]
    refine ⟨before ++ own.map (cs.length :: ·), ?_, ?_, ?_⟩
    · refine List.pairwise_append.mpr ⟨rising, ?_, ?_⟩
      · refine List.pairwise_map.mpr (ownRising.imp ?_)
        intro a b less
        exact List.cons_lt_cons_iff.mpr (.inr ⟨rfl, less⟩)
      · intro a ha b hb
        obtain ⟨i, rest, d, rfl, there, -⟩ := (inside a).mp ha
        obtain ⟨rest', -, rfl⟩ := List.mem_map.mp hb
        exact List.cons_lt_cons_iff.mpr (.inl (List.getElem?_eq_some_iff.mp there).1)
    · intro path
      rw [List.mem_append, inside, List.mem_map]
      constructor
      · rintro (⟨i, rest, d, rfl, there, tells⟩ | ⟨rest, mem, rfl⟩)
        · exact ⟨i, rest, d, rfl, earlier there, tells⟩
        · exact ⟨cs.length, rest, c, rfl, last, (ownInside rest).mp mem⟩
      · rintro ⟨i, rest, d, rfl, there, tells⟩
        rcases Nat.lt_trichotomy i cs.length with less | rfl | more
        · rw [List.getElem?_append_left less] at there
          exact .inl ⟨i, rest, d, rfl, there, tells⟩
        · obtain rfl := Option.some.inj (last.symm.trans there)
          exact .inr ⟨rest, (ownInside rest).mpr tells, rfl⟩
        · rw [List.getElem?_eq_none (by simp; omega)] at there
          cases there
    · rw [List.flatMap_append, List.flatMap_singleton]
      refine List.rel_append (told.imp ?_) ?_
      · rintro path x ⟨i, rest, d, rfl, there, tells⟩
        exact ⟨i, rest, d, rfl, earlier there, tells⟩
      · refine List.forall₂_map_left_iff.mpr (ownTold.imp ?_)
        intro rest x tells
        exact ⟨cs.length, rest, c, rfl, last, tells⟩

/-- What is told of a part, and then what is told of the parts that it is made of. -/
theorem lists_of_children (plain : q.isDeclared = false) (xss : Part → List α)
    (each : ∀ c ∈ q.children, c.Lists c.Outside tell (xss c)) : q.Lists q.Outside tell ((tell q).toList ++ q.children.flatMap xss) := by
  obtain ⟨below, rising, inside, told⟩ := lists_below q.children xss each
  have down {i : Nat} {rest : List Nat} {c : Part} (there : q.children[i]? = some c) : q.at? (i :: rest) = c.at? rest := by
    rw [at?_cons, there]
    rfl
  -- the places below the part are those that are not the part itself
  have mem_below (path : List Nat) : path ∈ below ↔ path ≠ [] ∧ q.Outside path ∧ ((q.at? path).bind tell).isSome = true := by
    rw [inside]
    constructor
    · rintro ⟨i, rest, c, rfl, there, outside, tells⟩
      rw [outside_cons plain there, down there]
      exact ⟨List.cons_ne_nil _ _, outside, tells⟩
    · rintro ⟨some, outside, tells⟩
      cases path with
      | nil => exact absurd rfl some
      | cons i rest =>
        cases there : q.children[i]? with
        | none =>
          rw [at?_cons, there] at tells
          cases tells
        | some c =>
          rw [outside_cons plain there] at outside
          rw [down there] at tells
          exact ⟨i, rest, c, rfl, there, outside, tells⟩
  have told : List.Forall₂ (fun path x => (q.at? path).bind tell = some x) below (q.children.flatMap xss) := by
    refine told.imp ?_
    rintro path x ⟨i, rest, c, rfl, there, tells⟩
    rw [down there]
    exact tells
  cases own : tell q with
  | none =>
    refine ⟨below, rising, ?_, told⟩
    intro path
    rw [mem_below, and_iff_right_of_imp]
    rintro ⟨-, tells⟩ rfl
    change (tell q).isSome = true at tells
    rw [own] at tells
    cases tells
  | some x =>
    refine ⟨[] :: below, ?_, ?_, ?_⟩
    · refine List.pairwise_cons.mpr ⟨?_, rising⟩
      intro path mem
      obtain ⟨i, rest, c, rfl, -⟩ := (inside path).mp mem
      exact List.nil_lt_cons i rest
    · intro path
      rw [List.mem_cons, mem_below]
      constructor
      · rintro (rfl | ⟨-, tells⟩)
        · exact ⟨outside_nil plain, Option.isSome_iff_exists.mpr ⟨x, own⟩⟩
        · exact tells
      · intro tells
        by_cases here : path = []
        · exact .inl here
        · exact .inr ⟨here, tells⟩
    · exact .cons own told

/-- Nothing is told of what is inside a declared type. -/
theorem lists_declared (declared : q.isDeclared = true) (tell : Part → Option α) : q.Lists q.Outside tell [] := by
  refine ⟨[], .nil, ?_, .nil⟩
  intro path
  constructor
  · intro mem
    exact absurd mem List.not_mem_nil
  · rintro ⟨outside, -⟩
    exact absurd outside (not_outside declared)

/-- A part of what is told. -/
theorem Lists.filterMap (lists : q.Lists keep tell xs) (f : α → Option β) :
    q.Lists keep (fun r => (tell r).bind f) (xs.filterMap f) := by
  obtain ⟨paths, rising, inside, told⟩ := lists
  have compose (path : List Nat) : (q.at? path).bind (fun r => (tell r).bind f) = ((q.at? path).bind tell).bind f :=
    (Option.bind_assoc _ _ _).symm
  refine ⟨paths.filter fun path => ((q.at? path).bind fun r => (tell r).bind f).isSome, rising.filter _, ?_, ?_⟩
  · intro path
    rw [List.mem_filter, inside]
    constructor
    · rintro ⟨⟨kept, -⟩, tells⟩
      exact ⟨kept, tells⟩
    · rintro ⟨kept, tells⟩
      refine ⟨⟨kept, ?_⟩, tells⟩
      rw [compose] at tells
      exact Option.isSome_of_isSome_bind tells
  · clear rising inside
    induction told with
    | nil => exact .nil
    | @cons path x paths xs here _ ih =>
      rw [List.filter_cons, List.filterMap_cons, compose, here]
      cases seen : f x with
      | none =>
        rw [Option.bind_some, seen]
        exact ih
      | some y =>
        rw [Option.bind_some, seen]
        refine .cons ?_ ih
        rw [compose, here, Option.bind_some, seen]

/-- Which places are kept matters only where something is told. -/
theorem Lists.congr (lists : q.Lists keep tell xs) (same : ∀ path r, q.at? path = some r → (tell r).isSome = true → (keep path ↔ keep' path)) :
    q.Lists keep' tell xs := by
  obtain ⟨paths, rising, inside, told⟩ := lists
  refine ⟨paths, rising, ?_, told⟩
  intro path
  rw [inside, and_congr_left_iff]
  intro tells
  cases there : q.at? path with
  | none =>
    rw [there] at tells
    cases tells
  | some r =>
    rw [there] at tells
    exact same path r there tells

/-- What is told of the parts at some places is one list. -/
theorem Lists.unique {ys : List α} (lists : q.Lists keep tell xs) (lists' : q.Lists keep tell ys) : xs = ys := by
  obtain ⟨paths, rising, inside, told⟩ := lists
  obtain ⟨paths', rising', inside', told'⟩ := lists'
  obtain rfl : paths = paths' := rising.eq_of_mem_iff rising' fun path => (inside path).trans (inside' path).symm
  clear rising rising' inside inside'
  induction told generalizing ys with
  | nil =>
    cases told'
    rfl
  | cons here _ ih =>
    cases told' with
    | cons here' rest =>
      rw [here] at here'
      rw [Option.some.inj here', ih rest]

end Lists

end Part

/-! ## Loose loop controls

A statement that ends a loop or one of its rounds belongs to the nearest loop around it in the same function. One
with no such loop is loose. -/

mutual

/-- Whether a statement holds a loop control that belongs to no loop in the statement. Functions are not looked
into, and a clause of a loop passes no control on. -/
def Stmt.loose : Stmt → Bool
  | .breaks _ | .continues _ => true
  | .block b => b.loose
  | .cond _ _ yes no => yes.loose || Stmt.looseOpt no
  | .tries _ body handlers => body.loose || Handler.looseAny handlers
  | _ => false

/-- Whether a block holds a loop control that belongs to no loop in the block. -/
def Block.loose : Block → Bool
  | .mk _ body => Stmt.looseAny body

/-- Whether some statement is loose. -/
def Stmt.looseAny : List Stmt → Bool
  | [] => false
  | s :: ss => s.loose || Stmt.looseAny ss

/-- Whether there is a statement and it is loose. -/
def Stmt.looseOpt : Option Stmt → Bool
  | some s => s.loose
  | none => false

/-- Whether some handler has a loose body. -/
def Handler.looseAny : List Handler → Bool
  | [] => false
  | .mk _ _ _ body :: hs => body.loose || Handler.looseAny hs

end

mutual

/-- Whether no function inside a statement has a loose body. -/
def Stmt.tight : Stmt → Bool
  | .function _ _ _ _ body => !body.loose && body.tight
  | .block b => b.tight
  | .cond _ _ yes no => yes.tight && Stmt.tightOpt no
  | .whileLoop _ _ body | .doLoop _ body _ | .forEach _ _ _ body => body.tight
  | .forLoop _ init _ _ body => Stmt.tightOpt init && body.tight
  | .tries _ body handlers => body.tight && Handler.tightAll handlers
  | _ => true

/-- Whether no function inside a block has a loose body. -/
def Block.tight : Block → Bool
  | .mk _ body => Stmt.tightAll body

/-- Whether all statements are tight. -/
def Stmt.tightAll : List Stmt → Bool
  | [] => true
  | s :: ss => s.tight && Stmt.tightAll ss

/-- Whether a statement, if there is one, is tight. -/
def Stmt.tightOpt : Option Stmt → Bool
  | some s => s.tight
  | none => true

/-- Whether all handlers have tight bodies. -/
def Handler.tightAll : List Handler → Bool
  | [] => true
  | .mk _ _ _ body :: hs => body.tight && Handler.tightAll hs

end

/-- Some statement of a list is loose when a member is. -/
theorem Stmt.looseAny_eq (ss : List Stmt) : Stmt.looseAny ss = ss.any Stmt.loose := by
  induction ss with
  | nil => rfl
  | cons s ss ih => rw [Stmt.looseAny, List.any_cons, ih]

/-- All statements of a list are tight when every member is. -/
theorem Stmt.tightAll_eq (ss : List Stmt) : Stmt.tightAll ss = ss.all Stmt.tight := by
  induction ss with
  | nil => rfl
  | cons s ss ih => rw [Stmt.tightAll, List.all_cons, ih]

/-- Some handler of a list has a loose body when that of a member is. -/
theorem Handler.looseAny_eq (hs : List Handler) : Handler.looseAny hs = hs.any (·.body.loose) := by
  induction hs with
  | nil => rfl
  | cons h hs ih =>
    obtain ⟨mark, category, caught, body⟩ := h
    rw [Handler.looseAny, List.any_cons, ih]
    rfl

/-- All handlers of a list have tight bodies when those of every member are. -/
theorem Handler.tightAll_eq (hs : List Handler) : Handler.tightAll hs = hs.all (·.body.tight) := by
  induction hs with
  | nil => rfl
  | cons h hs ih =>
    obtain ⟨mark, category, caught, body⟩ := h
    rw [Handler.tightAll, List.all_cons, ih]
    rfl

/-- A block is loose when one of its statements is. -/
theorem Block.loose_eq (b : Block) : b.loose = b.body.any Stmt.loose := by
  obtain ⟨mark, body⟩ := b
  rw [Block.loose, Stmt.looseAny_eq]
  rfl

/-- A block is tight when all of its statements are. -/
theorem Block.tight_eq (b : Block) : b.tight = b.body.all Stmt.tight := by
  obtain ⟨mark, body⟩ := b
  rw [Block.tight, Stmt.tightAll_eq]
  rfl

/-- A block that a script function may have as its body: none of its own loop controls is loose, nor is one of a
function inside. -/
def Block.closed (b : Block) : Bool := !b.loose && b.tight

end ScriptEngine
