import Mathlib.Algebra.GroupWithZero.Nat
import ScriptEngine.Proofs.SourceBytes
/-!
# Pieces of source text

The reader of tokens takes a source text apart: into white space, comments, the bytes that tokens are spelled with, and what
belongs to none of them. Nothing is left out before the first byte of value zero, where it stops.
-/

namespace ScriptEngine

open Text

/-- A stretch of source text: a byte of white space, a comment, the bytes of a token, a byte that belongs to none of them, or a
literal or a comment that does not end. -/
inductive Piece where
  | blank (b : UInt8)
  | lineComment (body : List UInt8)
  | blockComment (body : List UInt8)
  | lexeme (kind : Token.Kind) (literal : Text) (bytes : List UInt8)
  | stray (b : UInt8)
  | openQuote (value : Text) (bytes : List UInt8)
  | openComment (body : List UInt8)

/-- What is read of a piece: the kind and the literal of a token, and the pieces that it stands behind. -/
structure Spot where
  kind : Token.Kind
  literal : Text
  front : List Piece

namespace Piece

/-- The bytes of a piece. -/
def bytes : Piece → List UInt8
  | blank b | stray b => [b]
  | lineComment body => 47 :: 47 :: body
  | blockComment body => 47 :: 42 :: (body ++ [42, 47])
  | lexeme _ _ bytes | openQuote _ bytes => bytes
  | openComment body => 47 :: 42 :: body

/-- The bytes that lines and columns are counted by. -/
def counted : Piece → List UInt8
  | lexeme _ _ bytes | openQuote _ bytes => countedIn bytes
  | p => p.bytes

/-- The number of line feeds that stand behind a backslash in a quoted literal. -/
def feeds : Piece → Nat
  | lexeme _ _ bytes | openQuote _ bytes => escapedFeeds bytes
  | _ => 0

/-- White space and comments. -/
def isGap : Piece → Bool
  | blank _ | lineComment _ | blockComment _ => true
  | _ => false

/-- What may lie in a piece. -/
def Formed : Piece → Prop
  | blank b => b ∈ whiteSpace
  | lineComment body => 10 ∉ body ∧ 0 ∉ body
  | blockComment body | openComment body => CommentBody body
  | lexeme kind literal bytes => TokenBytes kind literal bytes
  | stray b => b ≠ 0 ∧ b ∉ whiteSpace
  | openQuote value bytes => ∃ quote body tail, IsQuote quote ∧ Unquoted quote body value.bytes ∧ (tail = [] ∨ tail = [0x5C]) ∧
      bytes = quote :: (body ++ tail)

/-- What is read of a piece behind others, if it is no white space and no comment. A comment that does not end is noticed behind
it. -/
def spot? (front : List Piece) : Piece → Option Spot
  | lexeme kind literal _ => some ⟨kind, literal, front⟩
  | stray b => some ⟨.illegal, Text.ofChar (Char.ofNat b.toNat), front⟩
  | openQuote value _ => some ⟨.illegal, value, front⟩
  | openComment body => some ⟨.illegal, "/*", front ++ [openComment body]⟩
  | _ => none

/-- The fault of a piece that stands behind some bytes. -/
def fault? (before : List UInt8) : Piece → Option LexFault
  | stray b => some ⟨.unrecognized b, lineBehind before, columnBehind before⟩
  | openQuote .. | openComment _ => some ⟨.unterminated, lineBehind before, columnBehind before⟩
  | _ => none

/-- What is read of pieces behind others, and the end mark. -/
def spots (front : List Piece) : List Piece → List Spot
  | [] => [⟨.eof, ⟨[]⟩, front⟩]
  | p :: ps => (p.spot? front).toList ++ spots (front ++ [p]) ps

/-- The faults of pieces behind others. -/
def faults (front : List Piece) : List Piece → List LexFault
  | [] => []
  | p :: ps => (p.fault? (front.flatMap counted)).toList ++ faults (front ++ [p]) ps

end Piece

/-- The token that is read at a place, with the line and the column of the place. -/
def Spot.token (x : Spot) : Token :=
  ⟨x.kind, x.literal, lineBehind (x.front.flatMap Piece.counted), columnBehind (x.front.flatMap Piece.counted)⟩

/-- Where the end mark is read, when reading starts at a cursor. -/
inductive Cursor.EndsAt : Cursor → Cursor → Prop where
  | here {c : Cursor} (ends : c.next.token.kind = .eof) : EndsAt c c.next.after
  | later {c e : Cursor} (more : c.next.token.kind ≠ .eof) (after : EndsAt c.next.after e) : EndsAt c e

/-- A source text is made of pieces up to the first byte of value zero, and its tokens and its faults are those of the pieces. -/
structure Piece.Lays (ps : List Piece) (source : Text) : Prop where
  formed : ∀ p ∈ ps, p.Formed
  bytes : ps.flatMap Piece.bytes = source.bytes.takeWhile (· ≠ 0)
  tokens : (Token.scan source).1 = (Piece.spots [] ps).map Spot.token
  faults : (Token.scan source).2 = Piece.faults [] ps

/-! ## Pieces one after the other -/

namespace Piece

variable {front gaps ps : List Piece} {p : Piece} {x : Spot}

/-- White space and comments give neither tokens nor faults. -/
theorem read_gaps (h : ∀ p ∈ gaps, p.isGap = true) (front ps : List Piece) :
    spots front (gaps ++ ps) = spots (front ++ gaps) ps ∧ faults front (gaps ++ ps) = faults (front ++ gaps) ps := by
  induction gaps generalizing front with
  | nil => simp
  | cons p gaps ih =>
    have here := h p List.mem_cons_self
    obtain ⟨spots_eq, faults_eq⟩ := ih (fun q hq => h q (List.mem_cons_of_mem p hq)) (front ++ [p])
    rw [List.append_assoc] at spots_eq faults_eq
    rw [List.cons_append, spots, faults, spots_eq, faults_eq]
    cases p with
    | blank | lineComment | blockComment => exact ⟨rfl, rfl⟩
    | lexeme | stray | openQuote | openComment => cases here

/-- White space and comments count as they are. -/
theorem counted_gap (h : p.isGap = true) : p.counted = p.bytes := by
  cases p with
  | blank | lineComment | blockComment => rfl
  | lexeme | stray | openQuote | openComment => cases h

/-- Where no line feed stands behind a backslash of a literal, all bytes count as they are. -/
theorem counted_eq_bytes (h : p.feeds = 0) : p.counted = p.bytes := by
  cases p with
  | lexeme kind literal bytes => exact countedIn_eq_self h
  | openQuote value bytes => exact countedIn_eq_self h
  | blank | lineComment | blockComment | stray | openComment => rfl

/-- Pieces hold no zero. -/
theorem Formed.solid (h : p.Formed) : 0 ∉ p.bytes := by
  cases p with
  | blank b =>
    have table : ∀ b ∈ whiteSpace, b ≠ 0 := by decide +kernel
    simpa [bytes] using (table b h).symm
  | lineComment body => simpa [bytes] using h.2
  | blockComment body => simpa [bytes] using CommentBody.solid h
  | openComment body => simpa [bytes] using CommentBody.solid h
  | stray b => simpa [bytes] using Ne.symm h.1
  | openQuote value bytes =>
    obtain ⟨quote, body, tail, isQuote, unquoted, half, rfl⟩ := h
    rcases half with rfl | rfl <;> simp [Piece.bytes, isQuote.plain.1.symm, unquoted.solid]
  | lexeme kind literal bytes =>
    rcases TokenBytes.quoted_or_bare h with ⟨quote, body, value, isQuote, unquoted, rfl⟩ | bare
    · simp [Piece.bytes, isQuote.plain.1.symm, unquoted.solid]
    · exact fun zero => (isTokenByte_plain (bare 0 zero)).1 rfl

end Piece

namespace Cursor

open Piece

/-! ## What is passed over -/

/-- What is passed over behind some bytes: white space and comments, up to what is none of them, or up to a comment that does
not end. -/
inductive GapRead (bs before : List UInt8) (r : Cursor × Option (Nat × Nat)) : Prop where
  | stops {gaps : List Piece} {rest : List UInt8} (shape : bs = gaps.flatMap Piece.bytes ++ rest)
    (formed : ∀ p ∈ gaps, p.Formed ∧ p.isGap = true) (stop : ∀ b, rest.head? = some b → b ∉ whiteSpace)
    (run : r = (behind (before ++ gaps.flatMap counted) rest, none)) : GapRead bs before r
  | open {gaps : List Piece} {body rest : List UInt8} (shape : bs = gaps.flatMap Piece.bytes ++ (47 :: 42 :: body ++ rest))
    (formed : ∀ p ∈ gaps, p.Formed ∧ p.isGap = true) (inside : CommentBody body) (ended : Ended rest)
    (run : r = (behind (before ++ (gaps.flatMap counted ++ 47 :: 42 :: body)) rest,
      some (lineBehind (before ++ gaps.flatMap counted), columnBehind (before ++ gaps.flatMap counted)))) : GapRead bs before r

namespace GapRead

variable {bs before body rest : List UInt8} {r : Cursor × Option (Nat × Nat)} {p : Piece}

/-- Nothing is passed over. -/
theorem nil (stop : ∀ b, rest.head? = some b → b ∉ whiteSpace) : GapRead rest before (behind before rest, none) := by
  refine .stops (show rest = [].flatMap Piece.bytes ++ rest from rfl) (fun p hp => absurd hp List.not_mem_nil) stop ?_
  rw [List.flatMap_nil, List.append_nil]

/-- A comment that does not end is passed over. -/
theorem comment (inside : CommentBody body) (ended : Ended rest) : GapRead (47 :: 42 :: body ++ rest) before
    (behind (before ++ 47 :: 42 :: body) rest, some (lineBehind before, columnBehind before)) := by
  refine .open (show 47 :: 42 :: body ++ rest = [].flatMap Piece.bytes ++ (47 :: 42 :: body ++ rest) from rfl)
    (fun p hp => absurd hp List.not_mem_nil) inside ended ?_
  rw [List.flatMap_nil, List.nil_append, List.append_nil]

/-- A piece is passed over before what follows it. -/
theorem cons (formed : p.Formed) (gap : p.isGap = true) (h : GapRead bs (before ++ p.bytes) r) : GapRead (p.bytes ++ bs) before r := by
  have all {gaps : List Piece} (rest : ∀ q ∈ gaps, q.Formed ∧ q.isGap = true) : ∀ q ∈ p :: gaps, q.Formed ∧ q.isGap = true :=
    List.forall_mem_cons.mpr ⟨⟨formed, gap⟩, rest⟩
  cases h with
  | @stops gaps rest shape others stop run =>
    refine .stops (show p.bytes ++ bs = (p :: gaps).flatMap Piece.bytes ++ rest from ?_) (all others) stop ?_
    · rw [shape, List.flatMap_cons, List.append_assoc]
    · rw [run, List.flatMap_cons, counted_gap gap, List.append_assoc]
  | @«open» gaps body rest shape others inside ended run =>
    refine .open (show p.bytes ++ bs = (p :: gaps).flatMap Piece.bytes ++ (47 :: 42 :: body ++ rest) from ?_) (all others) inside ended ?_
    · rw [shape, List.flatMap_cons, List.append_assoc]
    · rw [run, List.flatMap_cons, counted_gap gap]
      simp only [List.append_assoc]

end GapRead

/-- **White space and comments.** They are passed over whole. -/
theorem skipGap_pieces (bs before : List UInt8) :
    GapRead bs before (skipGap bs .blank (lineBehind before) (columnBehind before)) := by
  induction h : bs.length using Nat.strongRecOn generalizing bs before with
  | _ len ih =>
    subst h
    have after (more before : List UInt8) (less : more.length < bs.length) := ih more.length less more before rfl
    cases bs with
    | nil => exact .nil fun b hb => absurd hb (Option.not_mem_none b)
    | cons b rest =>
      by_cases space : b ∈ whiteSpace
      · -- a byte of white space
        have read := after rest (before ++ [b]) (Nat.lt_succ_self _)
        have here : GapRead ((Piece.blank b).bytes ++ rest) before _ := .cons space rfl read
        rw [lineBehind_append] at here
        simp only [whiteSpace, List.mem_cons, List.not_mem_nil, or_false] at space
        rcases space with rfl | rfl | rfl | rfl
        · rwa [columnBehind_feed] at here
        all_goals
          rwa [columnBehind_append before (by decide)] at here
      by_cases zero : b = 0
      · subst zero
        exact .nil fun b hb => by cases hb; decide
      by_cases comment : b = 47 ∧ (rest.head? = some 47 ∨ rest.head? = some 42)
      · obtain ⟨rfl, line | block⟩ := comment
        · obtain ⟨rest, rfl⟩ : ∃ more, rest = 47 :: more := by simpa [List.head?_eq_some_iff] using line
          obtain ⟨body, more, rfl, oneLine, solid, run⟩ := skipGap_lineComment rest (before ++ [47, 47])
          rw [lineBehind_append before [47, 47], columnBehind_append before (by decide), List.append_assoc] at run
          have read := after more (before ++ 47 :: 47 :: body) (by simp; omega)
          change skipGap (body ++ more) .lineComment (lineBehind before) (columnBehind before + 2) = _ at run
          rw [skipGap, run]
          exact .cons (p := .lineComment body) ⟨oneLine, solid⟩ rfl read
        · obtain ⟨rest, rfl⟩ : ∃ more, rest = 42 :: more := by simpa [List.head?_eq_some_iff] using block
          have begun := skipGap_blockComment rest (before ++ [47, 42]) (lineBehind before) (columnBehind before)
          rw [lineBehind_append before [47, 42], columnBehind_append before (by decide)] at begun
          rw [skipGap]
          rcases begun with ⟨shape, inside, run⟩ | ⟨shape, inside, ended, run⟩
          · rename_i body more
            subst shape
            have read := after more (before ++ 47 :: 42 :: (body ++ [42, 47])) (by simp; omega)
            have here : GapRead ((Piece.blockComment body).bytes ++ more) before _ := .cons inside rfl read
            rw [List.append_assoc] at run
            simp only [Piece.bytes, List.cons_append, List.append_assoc, List.nil_append] at here run ⊢
            exact run ▸ here
          · rename_i body more
            subst shape
            rw [List.append_assoc] at run
            have here : GapRead (47 :: 42 :: body ++ more) before _ := .comment inside ended
            exact run ▸ here
      · -- what is neither
        have other : b ∉ [10, 0, 32, 9, 13] := by
          simp only [whiteSpace, List.mem_cons, not_or] at space ⊢
          exact ⟨space.1, zero, space.2⟩
        have begun (slash : b = 47) (c : UInt8) (hc : rest.head? = some c) : c ≠ 47 ∧ c ≠ 42 :=
          ⟨fun line => comment ⟨slash, .inl (line ▸ hc)⟩, fun block => comment ⟨slash, .inr (block ▸ hc)⟩⟩
        rw [skipGap_stop _ _ other begun]
        exact .nil fun c hc => by cases hc; exact space

/-! ## What is read -/

/-- What is read behind some pieces where neither white space nor a comment begins: the end mark, or what one piece says. -/
inductive SpotRead (front : List Piece) (rest : List UInt8) (r : Step) : Prop where
  | ends (ended : Ended rest)
    (run : r = ⟨Spot.token ⟨.eof, ⟨[]⟩, front⟩, [], behind (front.flatMap counted) rest⟩) : SpotRead front rest r
  | piece {p : Piece} {x : Spot} {after : List UInt8} (formed : p.Formed) (spot : p.spot? front = some x) (more : x.kind ≠ .eof)
    (shape : rest = p.bytes ++ after)
    (run : r = ⟨x.token, (p.fault? (front.flatMap counted)).toList, behind (front.flatMap counted ++ p.counted) after⟩) :
    SpotRead front rest r

variable {front : List Piece} {rest bytes after : List UInt8} {kind : Token.Kind} {literal : Text} {b : UInt8}

/-- A token that is spelled with bytes that mean themselves. -/
theorem SpotRead.bare (spelled : TokenBytes kind literal bytes) (bare : ∀ b ∈ bytes, isTokenByte b = true) :
    SpotRead front (bytes ++ after) ⟨⟨kind, literal, lineBehind (front.flatMap counted), columnBehind (front.flatMap counted)⟩, [],
      (behind (front.flatMap counted) (bytes ++ after)).skip bytes.length⟩ := by
  have backslash : 0x5C ∉ bytes := fun bad => (isTokenByte_plain (bare _ bad)).2.2.1 rfl
  have feed : 10 ∉ bytes := fun bad => (isTokenByte_plain (bare _ bad)).2.1 rfl
  refine .piece (p := .lexeme kind literal bytes) spelled rfl spelled.kind_ne.1 rfl ?_
  have counted_eq : (Piece.lexeme kind literal bytes).counted = bytes := by
    have same := countedIn_append backslash []
    rwa [List.append_nil, countedIn, List.append_nil] at same
  rw [behind_skip _ _ feed, counted_eq]
  rfl

/-- A quoted literal, or one that does not end. -/
theorem spotRead_quoted (isQuote : IsQuote b) (front : List Piece) (rest : List UInt8) :
    SpotRead front (b :: rest) ((behind (front.flatMap counted) (b :: rest)).quotedToken b) := by
  have counts (more : List UInt8) : countedIn (b :: more) = b :: countedIn more := countedIn_cons isQuote.plain.2.2 more
  have read := literal_reads isQuote rest (front.flatMap counted ++ [b]) []
  generalize run : literalBehind b (front.flatMap counted ++ [b]) rest [] = r at read
  cases read with
  | @closed body v after shape unquoted =>
    have counted_eq : countedIn (b :: (body ++ [b])) = [b] ++ (countedIn body ++ [b]) := by
      rw [counts, unquoted.countedIn_append, counts]
      rfl
    have token := quotedToken_closed isQuote run
    rw [List.append_nil, List.reverse_reverse, List.append_assoc, ← counted_eq] at token
    rw [token]
    refine .piece (p := .lexeme _ ⟨v⟩ (b :: (body ++ [b]))) (.quoted isQuote unquoted) rfl
      (TokenBytes.quoted isQuote unquoted).kind_ne.1 ?_ rfl
    simp [Piece.bytes, shape]
  | @«open» body v tail after shape unquoted half ended =>
    have counted_eq : countedIn (b :: (body ++ tail)) = [b] ++ (countedIn body ++ tail) := by
      rw [counts, unquoted.countedIn_append]
      rcases half with rfl | rfl <;> rfl
    have token := quotedToken_open isQuote run
    rw [List.append_nil, List.reverse_reverse, List.append_assoc, ← counted_eq] at token
    rw [token]
    refine .piece (p := .openQuote ⟨v⟩ (b :: (body ++ tail))) ⟨b, body, tail, isQuote, unquoted, half, rfl⟩ rfl
      (fun same => by cases same) ?_ rfl
    simp [Piece.bytes, shape]

/-- **Tokens.** What is read where neither white space nor a comment begins is the end mark or a piece. -/
theorem tokenHere_piece (front : List Piece) (rest : List UInt8) (stop : ∀ b, rest.head? = some b → b ∉ whiteSpace) :
    SpotRead front rest (behind (front.flatMap counted) rest).tokenHere := by
  unfold tokenHere
  cases rest with
  | nil => exact .ends (.inl rfl) rfl
  | cons b rest =>
    change SpotRead front (b :: rest) (if b = 0 then _ else _)
    split
    · rename_i zero
      subst zero
      exact .ends (.inr ⟨rest, rfl⟩) rfl
    rename_i solid
    split
    · rename_i quote
      rw [Bool.or_eq_true, decide_eq_true_eq, decide_eq_true_eq] at quote
      exact spotRead_quoted quote front rest
    split
    · rename_i digit
      obtain ⟨whole, frac, exp, suffix, after, parts, letter, shape, literal, length⟩ := number_bytes digit
      have read : SpotRead front (whole ++ frac ++ exp ++ suffix ++ after) _ :=
        .bare (.number parts letter (kind_number (b :: rest))) fun c => isTokenByte_number parts letter
      rw [← shape, ← literal, List.length_append, ← length] at read
      exact read
    split
    · rename_i letter
      obtain ⟨more, after, word, shape, inside⟩ := word_bytes rest letter
      have read : SpotRead front (b :: more ++ after) _ := .bare (.word letter inside) fun c => isTokenByte_word letter inside
      rw [← shape, ← word] at read
      exact read
    split
    · rename_i kind spelling n found
      obtain ⟨bytes, after, shape, rfl, reads, -⟩ := operator_bytes found
      have read : SpotRead front (bytes ++ after) _ := .bare (.operator reads) fun c => isTokenByte_operator reads
      rw [← shape] at read
      exact read
    · have space := stop b rfl
      refine .piece (p := .stray b) ⟨solid, space⟩ rfl (fun same => by cases same) rfl ?_
      have feed : 10 ∉ [b] := fun bad => space (List.mem_singleton.mp bad ▸ by decide)
      have moved := behind_skip (front.flatMap counted) rest feed
      simp only [List.length_singleton, List.singleton_append] at moved
      rw [moved]
      rfl

/-- What the next step reads behind some pieces: white space and comments, and then the end mark or what one more piece says. -/
inductive NextRead (front : List Piece) (rest : List UInt8) (r : Step) : Prop where
  | ends {gaps : List Piece} {tail : List UInt8} (gap : ∀ p ∈ gaps, p.Formed ∧ p.isGap = true)
    (shape : rest = gaps.flatMap Piece.bytes ++ tail) (ended : Ended tail)
    (run : r = ⟨Spot.token ⟨.eof, ⟨[]⟩, front ++ gaps⟩, [], behind ((front ++ gaps).flatMap counted) tail⟩) : NextRead front rest r
  | piece {gaps : List Piece} {p : Piece} {x : Spot} {after : List UInt8} (gap : ∀ p ∈ gaps, p.Formed ∧ p.isGap = true)
    (formed : p.Formed) (spot : p.spot? (front ++ gaps) = some x) (more : x.kind ≠ .eof)
    (shape : rest = gaps.flatMap Piece.bytes ++ (p.bytes ++ after))
    (run : r = ⟨x.token, (p.fault? ((front ++ gaps).flatMap counted)).toList, behind ((front ++ gaps ++ [p]).flatMap counted) after⟩) :
    NextRead front rest r

theorem next_pieces (front : List Piece) (rest : List UInt8) : NextRead front rest (behind (front.flatMap counted) rest).next := by
  have passed := skipGap_pieces rest (front.flatMap counted)
  have unfolded : (behind (front.flatMap counted) rest).skipBlanks =
    skipGap rest .blank (lineBehind (front.flatMap counted)) (columnBehind (front.flatMap counted)) := rfl
  unfold next
  rw [unfolded]
  rcases passed with ⟨shape, gap, stop, run⟩ | ⟨shape, gap, inside, ended, run⟩
  · rename_i gaps tail
    rw [← List.flatMap_append] at run
    rw [run]
    rcases tokenHere_piece (front ++ gaps) tail stop with ⟨ended, here⟩ | ⟨formed, spot, more, shape', here⟩
    · exact .ends gap shape ended here
    · rename_i p x after
      refine .piece gap formed spot more (by rw [shape, shape']) ?_
      have joined : (front ++ gaps ++ [p]).flatMap counted = (front ++ gaps).flatMap counted ++ p.counted := by
        rw [List.flatMap_append, List.flatMap_singleton]
      rw [joined]
      exact here
  · rename_i gaps body tail
    rw [run]
    refine .piece gap (p := .openComment body) inside rfl (fun same => by cases same) shape ?_
    simp only [Spot.token, List.flatMap_append, List.flatMap_singleton, List.append_assoc]
    rfl

/-- **All tokens.** What is read behind some pieces is made of pieces up to the end. -/
theorem tokensFrom_pieces (fuel : Nat) (front : List Piece) (rest : List UInt8) (enough : rest.length < fuel) :
    ∃ ps tail, (∀ p ∈ ps, p.Formed) ∧ rest = ps.flatMap Piece.bytes ++ tail ∧ Ended tail ∧
      tokensFrom fuel (behind (front.flatMap counted) rest) = ((spots front ps).map Spot.token, faults front ps) ∧
      ∃ e, EndsAt (behind (front.flatMap counted) rest) e ∧ e.rest = tail := by
  induction fuel generalizing front rest with
  | zero => exact absurd enough (Nat.not_lt_zero _)
  | succ fuel ih =>
    have read := next_pieces front rest
    have ends (h : (behind (front.flatMap counted) rest).next.token.kind = .eof) := EndsAt.here h
    have later {e : Cursor} (h : (behind (front.flatMap counted) rest).next.token.kind ≠ .eof) := EndsAt.later (e := e) h
    have shorter := next_shorter (behind (front.flatMap counted) rest)
    rw [tokensFrom]
    generalize (behind (front.flatMap counted) rest).next = step at read ends later shorter ⊢
    rcases read with ⟨gap, shape, ended, run⟩ | ⟨gap, formed, spot, more, shape, run⟩
    · rename_i gaps tail
      subst run
      have none := read_gaps (fun p hp => (gap p hp).2) front []
      rw [List.append_nil] at none
      refine ⟨gaps, tail, fun p hp => (gap p hp).1, shape, ended, ?_, _, ends rfl, rfl⟩
      rw [none.1, none.2]
      rfl
    · rename_i gaps p x after
      subst run
      have less : after.length < rest.length := shorter more
      obtain ⟨ps, tail, formed', shape', ended, run, e, endsAt, there⟩ := ih (front ++ gaps ++ [p]) after (by omega)
      have passed := read_gaps (fun p hp => (gap p hp).2) front (p :: ps)
      refine ⟨gaps ++ p :: ps, tail, ?_, ?_, ended, ?_, e, later more endsAt, there⟩
      · intro q hq
        rcases List.mem_append.mp hq with hq | hq
        · exact (gap q hq).1
        rcases List.mem_cons.mp hq with rfl | hq
        · exact formed
        · exact formed' q hq
      · rw [shape, shape', List.flatMap_append, List.flatMap_cons, List.append_assoc, List.append_assoc]
      · dsimp only
        rw [if_neg (show x.token.kind ≠ .eof from more), run, passed.1, passed.2, spots, faults, spot]
        rfl

end Cursor

/-- **Every source text is made of pieces**, up to its first byte of value zero. There reading ends. -/
theorem Token.scan_lays (source : Text) : ∃ ps, Piece.Lays ps source ∧
    ∃ e, Cursor.EndsAt (Cursor.start source) e ∧ e.rest = source.bytes.dropWhile (· ≠ 0) := by
  obtain ⟨ps, tail, formed, shape, ended, run, e, ends, there⟩ :=
    Cursor.tokensFrom_pieces (source.size + 1) [] source.bytes (Nat.lt_succ_self _)
  have solid : ∀ b ∈ ps.flatMap Piece.bytes, decide (b ≠ 0) = true := by
    intro b hb
    obtain ⟨p, hp, hb⟩ := List.mem_flatMap.mp hb
    rw [decide_eq_true_eq]
    rintro rfl
    exact (formed p hp).solid hb
  have stops : tail.takeWhile (· ≠ 0) = [] ∧ tail.dropWhile (· ≠ 0) = tail := by
    rcases ended with rfl | ⟨more, rfl⟩
    · exact ⟨rfl, rfl⟩
    · exact ⟨rfl, rfl⟩
  refine ⟨ps, ⟨formed, ?_, ?_, ?_⟩, e, ends, ?_⟩
  · rw [shape, List.takeWhile_append_of_pos solid, stops.1, List.append_nil]
  · exact congrArg Prod.fst run
  · exact congrArg Prod.snd run
  · rw [shape, List.dropWhile_append_of_pos solid, stops.2, there]

/-! ## Lines and columns -/

/-- A spot lies among pieces: it is that of the end mark, behind all of them, or the bytes of its token come next. -/
def Spot.Begins (x : Spot) (ps : List Piece) : Prop :=
  x.kind = .eof ∧ x.front = ps ∨ ∃ bytes behind, ps = x.front ++ .lexeme x.kind x.literal bytes :: behind

namespace Piece

variable {front ps : List Piece} {x : Spot}

/-- What is read and legal stands where its bytes begin. -/
theorem begins_of_mem (h : x ∈ spots front ps) (legal : x.kind ≠ .illegal) : x.Begins (front ++ ps) := by
  induction ps generalizing front with
  | nil =>
    rw [spots, List.mem_singleton] at h
    subst h
    exact .inl ⟨rfl, (List.append_nil front).symm⟩
  | cons p ps ih =>
    rw [spots, List.mem_append] at h
    rcases h with here | later
    · rw [Option.mem_toList] at here
      cases p with
      | lexeme kind literal bytes =>
        cases here
        exact .inr ⟨bytes, ps, rfl⟩
      | stray | openQuote | openComment =>
        cases here
        exact absurd rfl legal
      | blank | lineComment | blockComment => cases here
    · have begins := ih later
      rwa [List.append_assoc] at begins

/-- The line behind some pieces is counted without the line feeds behind a backslash. -/
theorem lineBehind_counted (ps : List Piece) :
    lineBehind (ps.flatMap counted) + (ps.map feeds).sum = lineBehind (ps.flatMap Piece.bytes) := by
  have piece (p : Piece) : p.counted.count 10 + p.feeds = p.bytes.count 10 := by
    cases p with
    | lexeme kind literal bytes => exact count_countedIn bytes
    | openQuote value bytes => exact count_countedIn bytes
    | blank | lineComment | blockComment | stray | openComment => rfl
  induction ps with
  | nil => rfl
  | cons p ps ih =>
    have here := piece p
    simp only [lineBehind, List.flatMap_cons, List.count_append, List.map_cons, List.sum_cons] at ih ⊢
    omega

theorem flatMap_counted (h : ∀ p ∈ ps, p.feeds = 0) : ps.flatMap counted = ps.flatMap Piece.bytes :=
  List.flatMap_congr fun p hp => counted_eq_bytes (h p hp)

theorem counted_aligned (ps : List Piece) :
    List.Forall₂ (fun c b => c = 10 → b = 10) (ps.flatMap counted) (ps.flatMap Piece.bytes) := by
  have plain (bs : List UInt8) : List.Forall₂ (fun c b : UInt8 => c = 10 → b = 10) bs bs := List.forall₂_same.mpr fun _ _ => id
  induction ps with
  | nil => exact .nil
  | cons p ps ih =>
    have here : List.Forall₂ (fun c b : UInt8 => c = 10 → b = 10) p.counted p.bytes := by
      cases p with
      | lexeme | openQuote => exact countedIn_aligned _
      | _ => exact plain _
    exact List.rel_append here ih

/-- A line feed among the bytes of pieces that ends no line: it stands behind a backslash in a quoted literal. -/
def Hidden (ps : List Piece) (i : Nat) : Prop :=
  (ps.flatMap Piece.bytes)[i]? = some 10 ∧ (ps.flatMap counted)[i]? ≠ some 10

/-- The last line of some pieces begins behind a number of their bytes: behind the last line feed that ends a line, or at the
beginning if there is none. -/
structure LineFrom (ps : List Piece) (n : Nat) : Prop where
  within : n ≤ (ps.flatMap Piece.bytes).length
  begins : n = 0 ∨ (ps.flatMap Piece.bytes)[n - 1]? = some 10 ∧ ¬Hidden ps (n - 1)
  goes_on : ∀ i, n ≤ i → (ps.flatMap Piece.bytes)[i]? = some 10 → Hidden ps i

/-- A line feed that counts is one of the bytes. -/
theorem feed_of_counted {i : Nat} (h : (ps.flatMap counted)[i]? = some 10) : (ps.flatMap Piece.bytes)[i]? = some 10 := by
  obtain ⟨same, aligned⟩ := List.forall₂_iff_get.mp (counted_aligned ps)
  obtain ⟨inside, feed⟩ := List.getElem?_eq_some_iff.mp h
  exact List.getElem?_eq_some_iff.mpr ⟨same ▸ inside, aligned i inside (same ▸ inside) feed⟩

/-- The column behind some pieces is counted from the beginning of their last line. -/
theorem columnBehind_counted (ps : List Piece) :
    ∃ n, LineFrom ps n ∧ columnBehind (ps.flatMap counted) = 1 + ((ps.flatMap Piece.bytes).length - n) := by
  have same : (ps.flatMap counted).length = (ps.flatMap Piece.bytes).length := (counted_aligned ps).length_eq
  -- what comes behind the last line feed that counts
  obtain ⟨line, isLine⟩ : ∃ line, line = ((ps.flatMap counted).reverse.takeWhile (· ≠ 10)).reverse := ⟨_, rfl⟩
  obtain ⟨before, isBefore⟩ : ∃ before, before = ((ps.flatMap counted).reverse.dropWhile (· ≠ 10)).reverse := ⟨_, rfl⟩
  have split : ps.flatMap counted = before ++ line := by
    rw [isLine, isBefore, ← List.reverse_append, List.takeWhile_append_dropWhile, List.reverse_reverse]
  have column : columnBehind (ps.flatMap counted) = 1 + line.length := by
    rw [columnBehind, isLine, List.length_reverse]
  have total : before.length + line.length = (ps.flatMap Piece.bytes).length := by
    rw [← same, split, List.length_append]
  refine ⟨before.length, ⟨by omega, ?_, fun i later feed => ⟨feed, fun counts => ?_⟩⟩, by omega⟩
  · rcases List.eq_nil_or_concat before with none | ⟨front, b, ends⟩
    · exact .inl (by rw [none]; rfl)
    rw [List.concat_eq_append] at ends
    -- the byte that the last line stops at
    have stops := List.head?_dropWhile_not (· ≠ (10 : UInt8)) (ps.flatMap counted).reverse
    rw [← List.getLast?_reverse, ← isBefore, ends, List.getLast?_concat] at stops
    have feed : (ps.flatMap counted)[before.length - 1]? = some 10 := by
      obtain rfl : b = 10 := by simpa using stops
      rw [split, ends]
      simp
    exact .inr ⟨feed_of_counted feed, fun hidden => hidden.2 feed⟩
  · rw [split, List.getElem?_append_right later] at counts
    have inside : (10 : UInt8) ∈ (ps.flatMap counted).reverse.takeWhile (· ≠ 10) := by
      rw [← List.mem_reverse, ← isLine]
      exact List.mem_of_getElem? counts
    simpa using List.mem_takeWhile_imp inside

end Piece

/-- **Lines and columns of tokens.** Every source text is made of pieces, and every legal token stands at the pieces that it is
spelled with. Its line is one more than the number of line feeds before it, without those behind a backslash in a quoted literal. Its
column is one more than the number of bytes since the last line feed that is not one of these; where there are none of these, that is
the last line feed. -/
theorem Token.scan_places (source : Text) : ∃ ps, Piece.Lays ps source ∧ ∀ x ∈ Piece.spots [] ps, x.kind ≠ .illegal →
    x.Begins ps ∧ x.token.line + (x.front.map Piece.feeds).sum = 1 + (x.front.flatMap Piece.bytes).count 10 ∧
      (∃ n, Piece.LineFrom x.front n ∧ x.token.column = 1 + ((x.front.flatMap Piece.bytes).length - n)) ∧
      ((∀ p ∈ x.front, p.feeds = 0) →
        x.token.column = 1 + ((x.front.flatMap Piece.bytes).reverse.takeWhile (· ≠ 10)).length) := by
  obtain ⟨ps, lays, -⟩ := Token.scan_lays source
  refine ⟨ps, lays, fun x hx legal => ⟨Piece.begins_of_mem hx legal, Piece.lineBehind_counted x.front,
    Piece.columnBehind_counted x.front, fun none => ?_⟩⟩
  rw [← Piece.flatMap_counted none]
  rfl

/-- A line feed behind a backslash is not counted: the name behind the literal stands on the second line. -/
theorem Token.scan_escapedFeed : ∃ t ∈ (Token.scan ⟨[0x22, 0x5C, 10, 0x22, 0x20, 0x78]⟩).1,
    t.kind = .ident ∧ t.literal = ⟨[0x78]⟩ ∧ t.line = 1 ∧ t.column = 6 := by
  decide

/-! ## Nothing is left out -/

/-- Whether what lies in a piece is quoted, or lies in a comment. -/
def Piece.Encloses : Piece → Prop
  | lineComment _ | blockComment _ | openComment _ | openQuote .. => True
  | lexeme _ _ bytes => ∃ quote body value, IsQuote quote ∧ Unquoted quote body value ∧ bytes = quote :: (body ++ [quote])
  | blank _ | stray _ => False

namespace Piece

variable {front ps : List Piece} {p : Piece} {b : UInt8}

/-- The fault of each piece is recorded. -/
theorem fault_of_mem (h : p ∈ ps) (front : List Piece) {f : List UInt8 → LexFault} (fault : ∀ before, p.fault? before = some (f before)) :
    ∃ before, f before ∈ faults front ps := by
  induction ps generalizing front with
  | nil => cases h
  | cons q ps ih =>
    rw [faults]
    rcases List.mem_cons.mp h with rfl | h
    · refine ⟨front.flatMap counted, List.mem_append_left _ ?_⟩
      rw [fault]
      exact List.mem_singleton_self _
    · obtain ⟨before, recorded⟩ := ih h (front ++ [q])
      exact ⟨before, List.mem_append_right _ recorded⟩

/-- Without faults there are white space, comments and tokens only. -/
theorem covered_of_faults (none : faults front ps = []) (h : p ∈ ps) :
    p.isGap = true ∨ ∃ kind literal bytes, p = .lexeme kind literal bytes := by
  have impossible {f : List UInt8 → LexFault} (fault : ∀ before, p.fault? before = some (f before)) : False := by
    obtain ⟨before, recorded⟩ := fault_of_mem h front fault
    rw [none] at recorded
    cases recorded
  cases p with
  | blank | lineComment | blockComment => exact .inl rfl
  | lexeme kind literal bytes => exact .inr ⟨kind, literal, bytes, rfl⟩
  | stray b => exact (impossible fun before => rfl).elim
  | openQuote value bytes => exact (impossible fun before => rfl).elim
  | openComment body => exact (impossible fun before => rfl).elim

/-- A byte that begins no token and is no white space stands alone, where it is not enclosed. -/
theorem stray_of_not_begins (formed : p.Formed) (hb : b ∈ p.bytes) (none : ¬BeginsToken b) (space : b ∉ whiteSpace) :
    p.Encloses ∨ p = .stray b := by
  cases p with
  | lineComment | blockComment | openComment | openQuote => exact .inl trivial
  | blank c => exact absurd (List.mem_singleton.mp hb ▸ formed) space
  | stray c => exact .inr (by rw [List.mem_singleton.mp hb])
  | lexeme kind literal bytes =>
    rcases TokenBytes.quoted_or_bare formed with quoted | bare
    · exact .inl quoted
    · exact absurd (beginsToken_of_isTokenByte (bare b hb)) none

end Piece

/-- **No byte is left out** before the first one of value zero, where the end mark is read. Without faults every byte lies in a
token, in white space or in a comment, and a byte that begins no token is reported, unless it lies in a quoted literal or a
comment. -/
theorem Token.scan_covers (source : Text) : ∃ ps, Piece.Lays ps source ∧
    (∃ e, Cursor.EndsAt (Cursor.start source) e ∧ e.rest = source.bytes.dropWhile (· ≠ 0)) ∧
    (0 ∉ source.bytes → ps.flatMap Piece.bytes = source.bytes) ∧
    ((Token.scan source).2 = [] → ∀ p ∈ ps, p.isGap = true ∨ ∃ kind literal bytes, p = .lexeme kind literal bytes) ∧
    ∀ p ∈ ps, ∀ b ∈ p.bytes, ¬BeginsToken b → b ∉ whiteSpace →
      p.Encloses ∨ p = .stray b ∧ ∃ f ∈ (Token.scan source).2, f.cause = .unrecognized b := by
  obtain ⟨ps, lays, ends⟩ := Token.scan_lays source
  refine ⟨ps, lays, ends, fun solid => ?_, fun none p hp => ?_, fun p hp b hb none space => ?_⟩
  · rw [lays.bytes, List.takeWhile_eq_self_iff]
    intro b hb
    rw [decide_eq_true_eq]
    rintro rfl
    exact solid hb
  · rw [lays.faults] at none
    exact Piece.covered_of_faults none hp
  · rcases Piece.stray_of_not_begins (lays.formed p hp) hb none space with encloses | rfl
    · exact .inl encloses
    · obtain ⟨before, recorded⟩ := Piece.fault_of_mem hp [] (fun before => rfl)
      exact .inr ⟨rfl, _, lays.faults ▸ recorded, rfl⟩

/-- A zero ends the text without a fault, and what stands behind it is never read, not even a byte that begins no token. -/
theorem Token.scan_zero : (Token.scan ⟨[0x31, 0, 0x40]⟩).2 = [] ∧ ¬BeginsToken 0x40 ∧
    ∃ e, Cursor.EndsAt (Cursor.start ⟨[0x31, 0, 0x40]⟩) e ∧ e.rest = [0, 0x40] := by
  refine ⟨by decide, ?_, _, .later (by decide) (.here (by decide)), by decide⟩
  rw [beginsToken_iff]
  rintro (h | h | h) <;> exact absurd h (by decide)

end ScriptEngine
