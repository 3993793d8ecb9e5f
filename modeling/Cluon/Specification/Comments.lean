import Cluon.Specification.Grammar

/-!
# Comments

A specification text consists of literals and of words between them, and comments may stand between
these tokens (`Commented`). They are not to matter: all texts with the same tokens are to be parsed
alike, and what is left when the comments are removed is to be the text of the tokens
(`CommentsDoNotMatter`). Every text that the grammar takes is a text of tokens
(`isPlain_of_parseGrammar`).

Comments are removed before there are any tokens. So two characters in a literal that begin a comment
elsewhere may begin one there, too.
-/

set_option autoImplicit false

namespace Cluon.MessageParser

open Library PEG

/-! ## Texts with comments -/

def slash : Byte := 0x2F

def star : Byte := 0x2A

/-- A text without slashes and stars, as those in the grammar are. -/
def PlainLiteral (text : String) : Prop :=
  ∀ c ∈ text.toList, BitVec.ofNat 8 c.toNat ≠ slash ∧ BitVec.ofNat 8 c.toNat ≠ star

instance (text : String) : Decidable (PlainLiteral text) :=
  List.decidableBAll _ text.toList

theorem plain_of_plainLiteral {text : String} (plain : PlainLiteral text) :
    ∀ c ∈ asciiBytes text, c ≠ slash ∧ c ≠ star :=
  List.forall_mem_map.mpr plain

/-- What stands before and behind a literal. -/
inductive Quote where
  | single
  | double
  deriving DecidableEq, Repr

def Quote.byte : Quote → Byte
  | .single => 0x27
  | .double => 0x22

/-- A part of a text without comments: a literal, or any characters outside of literals; there are
neither slashes nor stars among these. -/
inductive Token where
  | word (text : Bytes) (plain : ∀ c ∈ text, c ≠ slash ∧ c ≠ star)
  | literal (quote : Quote) (content : Bytes)

def Token.text : Token → Bytes
  | .word text _ => text
  | .literal quote content => quote.byte :: content ++ [quote.byte]

/-- The text of tokens without comments. -/
def plainText (tokens : List Token) : Bytes := tokens.flatMap Token.text

/-- The end of a line, where a comment may end. -/
def isLineEnd (c : Byte) : Bool := decide (c = 0x0A ∨ c = 0x0D)

/-- A text that consists of the tokens, with comments between them. -/
inductive Commented : List Token → Bytes → Prop
  | nil : Commented [] []
  | token (T : Token) {tokens : List Token} {t : Bytes} : Commented tokens t →
      Commented (T :: tokens) (T.text ++ t)
  | block (content : Bytes) {tokens : List Token} {t : Bytes} :
      ¬ asciiBytes "*/" <:+: content → Commented tokens t →
      Commented tokens (asciiBytes "/*" ++ content ++ asciiBytes "*/" ++ t)
  | line (content : Bytes) {tokens : List Token} {t : Bytes} :
      (∀ c ∈ content, isLineEnd c = false) → (∀ c ∈ t.head?, isLineEnd c) → Commented tokens t →
      Commented tokens (asciiBytes "//" ++ content ++ t)

/-- **Comments do not matter** in texts of the tokens. -/
structure CommentsDoNotMatter (tokens : List Token) : Prop where
  parse_eq : ∀ t t', Commented tokens t → Commented tokens t' → parse t = parse t'
  unaltered : ∀ t, Commented tokens t → withoutComments t = plainText tokens

/-- Two characters that begin a comment. -/
def HasMarker (content : Bytes) : Prop :=
  asciiBytes "//" <:+: content ∨ asciiBytes "/*" <:+: content

/-- No literal contains two characters that begin a comment. -/
def LiteralsUnmarked (tokens : List Token) : Prop :=
  ∀ quote content, Token.literal quote content ∈ tokens → ¬ HasMarker content

/-! ## Removing comments -/

theorem bytes_block : asciiBytes "/*" = [slash, star] := rfl

theorem bytes_line : asciiBytes "//" = [slash, slash] := rfl

/-- No comment begins with other characters. -/
theorem afterComment_of_ne {c : Byte} (other : c ≠ slash) (s : Bytes) :
    afterComment (c :: s) = none := by
  have first (d : Byte) : ¬ [slash, d] <+: c :: s := fun h =>
    other (List.cons_prefix_cons.mp h).1.symm
  rw [afterComment, bytes_block, bytes_line, if_neg (first star), if_neg (first slash)]

theorem afterComment_slash {d : Byte} (noSlash : d ≠ slash) (noStar : d ≠ star) (s : Bytes) :
    afterComment (slash :: d :: s) = none := by
  have second {e : Byte} (other : d ≠ e) : ¬ [slash, e] <+: slash :: d :: s := fun h =>
    other (List.cons_prefix_cons.mp (List.cons_prefix_cons.mp h).2).1.symm
  rw [afterComment, bytes_block, bytes_line, if_neg (second noStar), if_neg (second noSlash)]

theorem afterComment_slash_star (s : Bytes) :
    afterComment (slash :: star :: s) = behindComment s :=
  if_pos (List.prefix_append [slash, star] s)

/-- The rest of a line is a comment. -/
theorem afterComment_slash_slash (s : Bytes) : afterComment (slash :: slash :: s) ≠ none := by
  have noBlock : ¬ [slash, star] <+: slash :: slash :: s := fun h =>
    absurd (List.cons_prefix_cons.mp (List.cons_prefix_cons.mp h).2).1 (by decide)
  have line : [slash, slash] <+: slash :: slash :: s := List.prefix_append [slash, slash] s
  rw [afterComment, bytes_block, bytes_line, if_neg noBlock, if_pos line]
  exact Option.some_ne_none _

theorem behindComment_shorter : ∀ {s t : Bytes}, behindComment s = some t → t.length ≤ s.length := by
  intro s
  induction s with
  | nil => intro t h; cases h
  | cons c s ih =>
      intro t h
      rw [behindComment] at h
      split at h
      · obtain rfl := Option.some.inj h
        rw [List.length_drop, List.length_cons]
        omega
      · exact (ih h).trans (Nat.le_succ _)

/-- A comment has at least two characters. -/
theorem afterComment_shorter {s t : Bytes} (h : afterComment s = some t) :
    t.length < s.length := by
  have two {w : Bytes} (begins : w <+: s) (length : w.length = 2) : 2 ≤ s.length :=
    length ▸ begins.length_le
  rw [afterComment] at h
  split at h
  · rename_i begins
    have least := two begins rfl
    have shorter := behindComment_shorter h
    rw [List.length_drop] at shorter
    omega
  · split at h
    · rename_i begins
      have least := two begins rfl
      obtain rfl := Option.some.inj h
      have shorter := (List.dropWhile_suffix (l := s.drop 2) fun c =>
        decide (c ≠ 0x0A ∧ c ≠ 0x0D)).length_le
      rw [List.length_drop] at shorter
      omega
    · cases h

/-- How many comments or characters there may be does not matter if there are not more. -/
theorem removeComments_of_le : ∀ (n m : Nat) (s : Bytes), s.length ≤ n → s.length ≤ m →
    removeComments n s = removeComments m s
  | 0, m, [], _, _ => by cases m <;> rfl
  | n + 1, 0, [], _, _ => rfl
  | n + 1, m + 1, [], _, _ => rfl
  | n + 1, m + 1, c :: s, hn, hm => by
      rw [List.length_cons] at hn hm
      rw [removeComments, removeComments]
      rcases comment : afterComment (c :: s) with _ | t
      · exact congrArg (c :: ·) (removeComments_of_le n m s (by omega) (by omega))
      · have shorter := afterComment_shorter comment
        rw [List.length_cons] at shorter
        exact removeComments_of_le n m t (by omega) (by omega)

/-- A character where no comment begins stays. -/
theorem withoutComments_cons {c : Byte} {s : Bytes} (none : afterComment (c :: s) = none) :
    withoutComments (c :: s) = c :: withoutComments s := by
  rw [withoutComments, List.length_cons, removeComments, none]
  rfl

/-- A comment is removed. -/
theorem withoutComments_of_some {s t : Bytes} (comment : afterComment s = some t) :
    withoutComments s = withoutComments t := by
  have shorter := afterComment_shorter comment
  cases s with
  | nil => cases shorter
  | cons c s =>
      rw [List.length_cons] at shorter
      rw [withoutComments, List.length_cons, removeComments, comment]
      exact removeComments_of_le _ _ t (by omega) le_rfl

theorem length_withoutComments_le (s : Bytes) : (withoutComments s).length ≤ s.length := by
  have bounded : ∀ (n : Nat) (s : Bytes), (removeComments n s).length ≤ s.length := by
    intro n
    induction n with
    | zero => intro s; exact le_rfl
    | succ n ih =>
        intro s
        cases s with
        | nil => exact le_rfl
        | cons c s =>
            rw [removeComments]
            split
            · rename_i t comment
              exact (ih t).trans (afterComment_shorter comment).le
            · exact Nat.succ_le_succ (ih s)
  exact bounded s.length s

/-! ## Comments between tokens are removed -/

theorem afterComment_block {content : Bytes} (inside : ¬ asciiBytes "*/" <:+: content) (t : Bytes) :
    afterComment (asciiBytes "/*" ++ content ++ asciiBytes "*/" ++ t) = some t := by
  have behind : behindComment (content ++ (star :: slash :: t)) = some t := by
    induction content with
    | nil => exact if_pos (List.prefix_append [star, slash] t)
    | cons c content ih =>
        have others := ih fun h => inside (List.infix_cons h)
        rw [List.cons_append, behindComment, if_neg, others]
        intro begins
        obtain ⟨rfl, next⟩ := List.cons_prefix_cons.mp begins
        cases content with
        | nil => exact absurd (List.cons_prefix_cons.mp next).1 (by decide)
        | cons d content =>
            obtain ⟨rfl, -⟩ := List.cons_prefix_cons.mp next
            exact inside ⟨[], content, rfl⟩
  rw [List.append_assoc, List.append_assoc, afterComment, if_pos (List.prefix_append _ _)]
  exact behind

theorem afterComment_line {content t : Bytes} (inside : ∀ c ∈ content, isLineEnd c = false)
    (ends : ∀ c ∈ t.head?, isLineEnd c) :
    afterComment (asciiBytes "//" ++ content ++ t) = some t := by
  have noBlock : ¬ asciiBytes "/*" <+: asciiBytes "//" ++ content ++ t := fun h =>
    absurd (List.cons_prefix_cons.mp (List.cons_prefix_cons.mp h).2).1 (by decide)
  have isLine : asciiBytes "//" <+: asciiBytes "//" ++ content ++ t := by
    rw [List.append_assoc]
    exact List.prefix_append _ _
  have rest : (asciiBytes "//" ++ content ++ t).drop 2 = content ++ t := rfl
  have all : ∀ c ∈ content, decide (c ≠ 0x0A ∧ c ≠ 0x0D) = true := fun c member =>
    decide_eq_true (not_or.mp (of_decide_eq_false (inside c member)))
  have stops : t.dropWhile (fun c => decide (c ≠ 0x0A ∧ c ≠ 0x0D)) = t := by
    cases t with
    | nil => rfl
    | cons c t =>
        have lineEnd : c = 0x0A ∨ c = 0x0D := of_decide_eq_true (ends c rfl)
        exact List.dropWhile_cons_of_neg fun h => not_or.mpr (of_decide_eq_true h) lineEnd
  rw [afterComment, if_neg noBlock, if_pos isLine, rest, List.dropWhile_append_of_pos all, stops]

/-- A word stays. -/
theorem withoutComments_word {w : Bytes} (plain : ∀ c ∈ w, c ≠ slash ∧ c ≠ star) (t : Bytes) :
    withoutComments (w ++ t) = w ++ withoutComments t := by
  induction w with
  | nil => rfl
  | cons c w ih =>
      obtain ⟨here, others⟩ := List.forall_mem_cons.mp plain
      rw [List.cons_append, withoutComments_cons (afterComment_of_ne here.1 _), ih others]
      rfl

theorem quote_ne (quote : Quote) : quote.byte ≠ slash ∧ quote.byte ≠ star := by
  cases quote <;> decide

/-- A literal without markers stays. -/
theorem withoutComments_literal {quote : Quote} {content : Bytes} (unmarked : ¬ HasMarker content)
    (t : Bytes) :
    withoutComments ((Token.literal quote content).text ++ t) =
      (Token.literal quote content).text ++ withoutComments t := by
  have closing : withoutComments (quote.byte :: t) = quote.byte :: withoutComments t :=
    withoutComments_cons (afterComment_of_ne (quote_ne quote).1 t)
  have inside : withoutComments (content ++ quote.byte :: t) =
      content ++ quote.byte :: withoutComments t := by
    induction content with
    | nil => exact closing
    | cons c content ih =>
        rw [HasMarker, not_or] at unmarked
        have others := ih (not_or.mpr
          ⟨mt List.infix_cons unmarked.1, mt List.infix_cons unmarked.2⟩)
        have stays : afterComment (c :: (content ++ quote.byte :: t)) = none := by
          by_cases same : c = slash
          · subst same
            cases content with
            | nil => exact afterComment_slash (quote_ne quote).1 (quote_ne quote).2 t
            | cons d content =>
                apply afterComment_slash
                · rintro rfl
                  exact unmarked.1 ⟨[], content, rfl⟩
                · rintro rfl
                  exact unmarked.2 ⟨[], content, rfl⟩
          · exact afterComment_of_ne same _
        rw [List.cons_append, withoutComments_cons stays, others]
        rfl
  have split (u : Bytes) : (Token.literal quote content).text ++ u =
      quote.byte :: (content ++ quote.byte :: u) := by
    rw [Token.text, List.cons_append, List.cons_append, List.append_assoc]
    rfl
  rw [split, split, withoutComments_cons (afterComment_of_ne (quote_ne quote).1 _), inside]

theorem plainText_cons (T : Token) (tokens : List Token) :
    plainText (T :: tokens) = T.text ++ plainText tokens := List.flatMap_cons

/-- **Comments between tokens are removed**, and nothing else. -/
theorem withoutComments_commented {tokens : List Token} (unmarked : LiteralsUnmarked tokens)
    {t : Bytes} (commented : Commented tokens t) : withoutComments t = plainText tokens := by
  induction commented with
  | nil => rfl
  | token T _ ih =>
      have others := ih fun quote content member =>
        unmarked quote content (List.mem_cons_of_mem _ member)
      rw [plainText_cons, ← others]
      cases T with
      | word text plain => exact withoutComments_word plain _
      | literal quote content =>
          exact withoutComments_literal (unmarked quote content List.mem_cons_self) _
  | block content inside _ ih =>
      rw [withoutComments_of_some (afterComment_block inside _), ih unmarked]
  | line content inside ends _ ih =>
      rw [withoutComments_of_some (afterComment_line inside ends), ih unmarked]

/-- The parser sees a text without its comments only. -/
theorem parse_eq_of_withoutComments {t t' : Bytes} (same : withoutComments t = withoutComments t') :
    parse t = parse t' := by
  rw [parse, parse, syntaxTree, syntaxTree, same]

theorem commentsDoNotMatter_of_literalsUnmarked {tokens : List Token}
    (unmarked : LiteralsUnmarked tokens) : CommentsDoNotMatter tokens where
  parse_eq _ _ commented commented' := parse_eq_of_withoutComments
    ((withoutComments_commented unmarked commented).trans
      (withoutComments_commented unmarked commented').symm)
  unaltered _ commented := withoutComments_commented unmarked commented

/-! ## Markers in literals -/

/-- The end of a comment behind a text that has none. -/
theorem behindComment_append {w : Bytes} (none : behindComment w = none)
    (noStar : ∀ c ∈ w.getLast?, c ≠ star) (t : Bytes) :
    behindComment (w ++ t) = behindComment t := by
  induction w with
  | nil => rfl
  | cons c w ih =>
      rw [behindComment] at none
      split at none
      · cases none
      · rename_i noEnd
        have noEnd' : ¬ asciiBytes "*/" <+: c :: (w ++ t) := by
          intro ends
          obtain ⟨rfl, next⟩ := List.cons_prefix_cons.mp ends
          cases w with
          | nil => exact noStar _ rfl rfl
          | cons d w =>
              obtain ⟨rfl, -⟩ := List.cons_prefix_cons.mp next
              exact noEnd ⟨w, rfl⟩
        rw [List.cons_append, behindComment, if_neg noEnd']
        apply ih none
        cases w with
        | nil => exact fun c member => nomatch member
        | cons d w => rwa [List.getLast?_cons_cons] at noStar

theorem hasMarker_cons {c : Byte} {s : Bytes} (marker : HasMarker (c :: s)) :
    (c = slash ∧ ∃ d ∈ s.head?, d = slash ∨ d = star) ∨ HasMarker s := by
  have begins {d : Byte} (h : [slash, d] <+: c :: s) : c = slash ∧ d ∈ s.head? := by
    obtain ⟨rfl, next⟩ := List.cons_prefix_cons.mp h
    cases s with
    | nil => cases List.prefix_nil.mp next
    | cons e s =>
        obtain ⟨rfl, -⟩ := List.cons_prefix_cons.mp next
        exact ⟨rfl, rfl⟩
  rcases marker with marker | marker
  · rcases List.infix_cons_iff.mp marker with here | later
    · exact .inl ⟨(begins here).1, slash, (begins here).2, .inl rfl⟩
    · exact .inr (.inl later)
  · rcases List.infix_cons_iff.mp marker with here | later
    · exact .inl ⟨(begins here).1, star, (begins here).2, .inr rfl⟩
    · exact .inr (.inr later)

/-- Where a text stays as it is, no comment begins. -/
theorem afterComment_of_stays {s : Bytes} (stays : withoutComments s = s) :
    afterComment s = none := by
  by_contra some
  obtain ⟨t, comment⟩ := Option.ne_none_iff_exists'.mp some
  rw [withoutComments_of_some comment] at stays
  have lengths := congrArg List.length stays
  have bound := length_withoutComments_le t
  have shorter := afterComment_shorter comment
  omega

/-- The comment that is added at the end of a text. -/
def addedComment : Bytes := asciiBytes "/**/"

/-- **Markers do not stay.** A text with two characters that begin a comment is altered, or it is
altered when a comment is added at its end. -/
theorem not_hasMarker {s : Bytes} (last : ∀ c ∈ s.getLast?, c ≠ slash ∧ c ≠ star)
    (stays : withoutComments s = s) (added : withoutComments (s ++ addedComment) = s) :
    ¬ HasMarker s := by
  induction s with
  | nil => rintro (⟨_ | _, _, h⟩ | ⟨_ | _, _, h⟩) <;> cases h
  | cons c s ih =>
      have first := afterComment_of_stays stays
      -- The first character stays also when the comment is added.
      have others (noMarker : ¬ (c = slash ∧ ∃ d ∈ s.head?, d = slash ∨ d = star))
          (none : afterComment (c :: (s ++ addedComment)) = none)
          (last : ∀ d ∈ s.getLast?, d ≠ slash ∧ d ≠ star) : ¬ HasMarker (c :: s) := by
        rw [withoutComments_cons first] at stays
        rw [List.cons_append, withoutComments_cons none] at added
        intro marker
        rcases hasMarker_cons marker with here | later
        · exact noMarker here
        · exact ih last (List.cons.inj stays).2 (List.cons.inj added).2 later
      by_cases isSlash : c = slash
      · subst isSlash
        cases s with
        | nil => exact absurd rfl (last slash rfl).1
        | cons d s =>
            rw [List.getLast?_cons_cons] at last
            by_cases line : d = slash
            · subst line
              exact absurd first (afterComment_slash_slash s)
            · by_cases block : d = star
              · subst block
                -- The comment that is added closes the one that begins here.
                rw [afterComment_slash_star] at first
                have closed : behindComment (s ++ addedComment) = some [] := by
                  rw [behindComment_append first]
                  · rfl
                  · cases s with
                    | nil => exact absurd rfl (last star rfl).2
                    | cons e s => exact fun c member => (last c member).2
                rw [List.cons_append, List.cons_append,
                  withoutComments_of_some ((afterComment_slash_star _).trans closed)] at added
                cases added
              · refine others ?_ (afterComment_slash line block _) last
                rintro ⟨-, e, head, marker⟩
                obtain rfl := Option.some.inj head
                exact marker.elim line block
      · apply others (fun h => isSlash h.1) (afterComment_of_ne isSlash _)
        cases s with
        | nil => exact fun d member => nomatch member
        | cons d s => rwa [List.getLast?_cons_cons] at last

/-! ## The law of comments -/

/-- Comments at the end of a text. -/
theorem Commented.plain : ∀ tokens : List Token, Commented tokens (plainText tokens)
  | [] => .nil
  | T :: tokens => by
      rw [plainText_cons]
      exact .token T (Commented.plain tokens)

theorem Commented.added : ∀ tokens : List Token, Commented tokens (plainText tokens ++ addedComment)
  | [] => .block [] (by decide) .nil
  | T :: tokens => by
      rw [plainText_cons, List.append_assoc]
      exact .token T (Commented.added tokens)

theorem getLast_plainText (tokens : List Token) :
    ∀ c ∈ (plainText tokens).getLast?, c ≠ slash ∧ c ≠ star := by
  induction tokens with
  | nil => exact fun c member => nomatch member
  | cons T tokens ih =>
      intro c member
      rw [plainText_cons, List.getLast?_append] at member
      rcases others : (plainText tokens).getLast? with _ | d
      · rw [others, Option.none_or] at member
        cases T with
        | word text plain => exact plain c (List.mem_of_getLast? member)
        | literal quote content =>
            rw [Token.text, List.getLast?_concat] at member
            exact Option.some.inj member ▸ quote_ne quote
      · rw [others, Option.some_or] at member
        exact ih c (others.trans member)

theorem infix_plainText {quote : Quote} {content : Bytes} {tokens : List Token}
    (member : Token.literal quote content ∈ tokens) : content <:+: plainText tokens := by
  obtain ⟨before, behind, rfl⟩ := List.append_of_mem member
  refine ⟨plainText before ++ [quote.byte], quote.byte :: plainText behind, ?_⟩
  simp only [plainText, List.flatMap_append, List.flatMap_cons, Token.text, List.append_assoc,
    List.cons_append, List.nil_append]

theorem literalsUnmarked_of_commentsDoNotMatter {tokens : List Token}
    (law : CommentsDoNotMatter tokens) : LiteralsUnmarked tokens := by
  intro quote content member marker
  have unmarked := not_hasMarker (getLast_plainText tokens)
    (law.unaltered _ (Commented.plain tokens)) (law.unaltered _ (Commented.added tokens))
  have within := infix_plainText member
  exact unmarked (marker.imp (fun h => h.trans within) fun h => h.trans within)

/-- **The law of comments** holds for exactly those tokens of which no literal contains two
characters that begin a comment. -/
theorem commentsDoNotMatter_iff (tokens : List Token) :
    CommentsDoNotMatter tokens ↔ LiteralsUnmarked tokens :=
  ⟨literalsUnmarked_of_commentsDoNotMatter, commentsDoNotMatter_of_literalsUnmarked⟩

/-- A default value with two slashes. -/
theorem not_commentsDoNotMatter :
    ¬ CommentsDoNotMatter
      [.word (asciiBytes "message A [id = 1] \x7b string s [default = ")
          (plain_of_plainLiteral (by decide)),
        .literal .double (asciiBytes "a//b"),
        .word (asciiBytes "]; \x7d") (plain_of_plainLiteral (by decide))] := by
  intro law
  have unmarked := literalsUnmarked_of_commentsDoNotMatter law .double (asciiBytes "a//b") (by simp)
  exact unmarked (.inl ⟨asciiBytes "a", asciiBytes "b", rfl⟩)

/-! ## Texts of the grammar -/

/-- A text of tokens. -/
def IsPlain (w : Bytes) : Prop := ∃ tokens, w = plainText tokens

theorem closed_isPlain : AppendClosed IsPlain where
  nil := ⟨[], rfl⟩
  append := by
    rintro _ _ ⟨tokens, rfl⟩ ⟨others, rfl⟩
    exact ⟨tokens ++ others, List.flatMap_append.symm⟩

theorem isPlain_word {w : Bytes} (plain : ∀ c ∈ w, c ≠ slash ∧ c ≠ star) : IsPlain w :=
  ⟨[.word w plain], (List.append_nil w).symm⟩

theorem isPlain_of_all {p : Byte → Bool} (others : p slash = false ∧ p star = false) (w : Bytes)
    (all : ∀ c ∈ w, p c) : IsPlain w := by
  refine isPlain_word fun c member => ⟨?_, ?_⟩
  · rintro rfl
    exact absurd (all _ member) (by rw [others.1]; exact Bool.false_ne_true)
  · rintro rfl
    exact absurd (all _ member) (by rw [others.2]; exact Bool.false_ne_true)

theorem takes_class {p : Byte → Bool} (others : p slash = false ∧ p star = false) :
    Takes IsPlain (satisfy p) :=
  takes_satisfy fun c here => isPlain_of_all others [c] fun d member => by
    rwa [List.mem_singleton.mp member]

theorem takes_blanks : Takes IsPlain (skipWhile isWhitespace) :=
  takes_skipWhile (isPlain_of_all ⟨rfl, rfl⟩)

theorem takes_litInToken {text : String} (plain : PlainLiteral text) :
    Takes IsPlain (litInToken text) := takes_word (isPlain_word (plain_of_plainLiteral plain))

theorem takes_lit {text : String} (plain : PlainLiteral text) : Takes IsPlain (lit text) :=
  Takes.bind closed_isPlain (takes_litInToken plain) fun _ => takes_blanks

theorem takes_token {α : Type} {e : Parser Byte α} (h : Takes IsPlain e) :
    Takes IsPlain (token e) :=
  Takes.bind closed_isPlain h.textOf fun _ => Takes.bind closed_isPlain takes_blanks fun _ =>
    Takes.pure closed_isPlain _

/-- Any text. -/
def IsText (_ : Bytes) : Prop := True

theorem closed_isText : AppendClosed IsText := ⟨trivial, fun _ _ => trivial⟩

theorem takes_anyCharacter : Takes IsText anyCharacter := by
  intro s a t h
  cases s with
  | nil => cases h
  | cons c s =>
      simp only [anyCharacter] at h
      split at h
      · obtain ⟨-, rfl⟩ := Prod.mk.inj (Option.some.inj h)
        exact ⟨_, trivial, (List.take_append_drop (codepointLength c) (c :: s)).symm⟩
      · cases h

/-- A literal: quotation marks, and any text between them. -/
theorem takes_quoted {α : Type} {e : Parser Byte α} (any : Takes IsText e) (quote : Quote)
    {mark : String} (isQuote : asciiBytes mark = [quote.byte]) :
    Takes IsPlain (do lit mark; let text ← token e; lit mark; return text) := by
  have isMark : Takes (· = [quote.byte]) (litInToken mark) := takes_word isQuote
  have inside : Takes IsText (token e) :=
    Takes.bind closed_isText any.textOf fun _ =>
      Takes.bind closed_isText (takes_skipWhile fun _ _ => trivial) fun _ =>
        Takes.pure closed_isText _
  intro s w t h
  obtain ⟨_, s₁, opening, h⟩ := bind_eq_some.mp h
  obtain ⟨_, s₂, content, h⟩ := bind_eq_some.mp h
  obtain ⟨_, s₃, closing, h⟩ := bind_eq_some.mp h
  obtain ⟨-, rfl⟩ := pure_eq_some.mp h
  obtain ⟨_, u, first, blanks⟩ := bind_eq_some.mp opening
  obtain ⟨_, v, last, behind⟩ := bind_eq_some.mp closing
  obtain ⟨_, rfl, rfl⟩ := isMark _ _ _ first
  obtain ⟨_, rfl, rfl⟩ := isMark _ _ _ last
  obtain ⟨before, -, rfl⟩ :=
    takes_skipWhile (P := IsText) (fun _ _ => trivial) _ _ _ blanks
  obtain ⟨text, -, rfl⟩ := inside _ _ _ content
  obtain ⟨_, ⟨others, rfl⟩, rfl⟩ := takes_blanks _ _ _ behind
  refine ⟨_, ⟨.literal quote (before ++ text) :: others, rfl⟩, ?_⟩
  simp only [plainText_cons, Token.text, List.append_assoc, List.cons_append, List.nil_append]

theorem takes_string : Takes IsPlain string :=
  takes_quoted (Takes.many closed_isText (Takes.bind closed_isText (takes_notNext closed_isText)
    fun _ => takes_anyCharacter)) .double rfl

theorem takes_character : Takes IsPlain character :=
  takes_quoted (Takes.bind closed_isText (takes_notNext closed_isText)
    fun _ => takes_anyCharacter) .single rfl

theorem takes_name : Takes IsPlain name :=
  takes_token (Takes.bind closed_isPlain (takes_class (by decide)) fun _ =>
    Takes.many closed_isPlain (takes_class (by decide)))

theorem takes_dottedName : Takes IsPlain dottedName := by
  have others : Takes IsPlain (do lit "."; name) :=
    Takes.bind closed_isPlain (takes_lit (by decide)) fun _ => takes_name
  exact Takes.bind closed_isPlain takes_name fun _ =>
    Takes.bind closed_isPlain (Takes.many closed_isPlain others) fun _ =>
      Takes.pure closed_isPlain _

theorem takes_digits : Takes IsPlain (many digit) :=
  Takes.many closed_isPlain (takes_token (takes_class (by decide)))

theorem takes_naturalNumber : Takes IsPlain naturalNumber :=
  takes_token (Takes.bind closed_isPlain (takes_class (by decide)) fun _ => takes_digits)

theorem takes_floatNumber : Takes IsPlain floatNumber := by
  have sign : Takes IsPlain (litInToken "+" <|> litInToken "-") :=
    Takes.orElse (takes_litInToken (by decide)) (takes_litInToken (by decide))
  have fraction : Takes IsPlain (do lit "."; many digit) :=
    Takes.bind closed_isPlain (takes_lit (by decide)) fun _ => takes_digits
  have whole : Takes IsPlain digit := takes_token (takes_class (by decide))
  exact takes_token (Takes.bind closed_isPlain (Takes.opt closed_isPlain sign) fun _ =>
    Takes.bind closed_isPlain whole fun _ => Takes.bind closed_isPlain takes_digits fun _ =>
      Takes.opt closed_isPlain fraction)

theorem takes_bool : Takes IsPlain MessageParser.bool :=
  Takes.orElse (takes_token (takes_litInToken (by decide)))
    (takes_token (takes_litInToken (by decide)))

theorem takes_default : Takes IsPlain default :=
  Takes.bind closed_isPlain (takes_lit (by decide)) fun _ =>
    Takes.bind closed_isPlain (takes_lit (by decide)) fun _ =>
      Takes.orElse (Takes.map closed_isPlain _ takes_floatNumber) <|
        Takes.orElse (Takes.map closed_isPlain _ takes_bool) <|
          Takes.orElse (Takes.map closed_isPlain _ takes_character)
            (Takes.map closed_isPlain _ takes_string)

theorem takes_identifier : Takes IsPlain identifier :=
  Takes.bind closed_isPlain (takes_lit (by decide)) fun _ =>
    Takes.bind closed_isPlain (takes_lit (by decide)) fun _ => takes_naturalNumber

theorem takes_fieldOptions : Takes IsPlain fieldOptions := by
  have option : Takes IsPlain fieldOption :=
    Takes.bind closed_isPlain (Takes.orElse (Takes.map closed_isPlain _ takes_default)
      (Takes.map closed_isPlain _ takes_identifier)) fun _ =>
        Takes.bind closed_isPlain (Takes.opt closed_isPlain (takes_lit (by decide))) fun _ =>
          Takes.pure closed_isPlain _
  exact Takes.bind closed_isPlain (takes_lit (by decide)) fun _ =>
    Takes.bind closed_isPlain (Takes.many closed_isPlain option) fun _ =>
      Takes.bind closed_isPlain (takes_lit (by decide)) fun _ => Takes.pure closed_isPlain _

theorem takes_primitiveType : Takes IsPlain primitiveType := by
  have all : ∀ keywords : List String,
      (∀ k ∈ keywords, PlainLiteral k) →
      Takes IsPlain (keywords.foldr (fun keyword others => litInToken keyword <|> others)
        (do let _ ← messageType)) := by
    intro keywords
    induction keywords with
    | nil =>
        intro _
        exact Takes.bind closed_isPlain (takes_token takes_dottedName) fun _ =>
          Takes.pure closed_isPlain _
    | cons keyword keywords ih =>
        intro plain
        obtain ⟨first, others⟩ := List.forall_mem_cons.mp plain
        exact Takes.orElse (takes_litInToken first) (ih others)
  exact takes_token (all primitiveTypes (by decide))

theorem takes_field : Takes IsPlain field :=
  Takes.bind closed_isPlain takes_primitiveType fun _ => Takes.bind closed_isPlain takes_name
    fun _ => Takes.bind closed_isPlain (Takes.opt closed_isPlain takes_fieldOptions) fun _ =>
      Takes.bind closed_isPlain (takes_lit (by decide)) fun _ => Takes.pure closed_isPlain _

theorem takes_messageDeclaration : Takes IsPlain messageDeclaration :=
  Takes.bind closed_isPlain (takes_lit (by decide)) fun _ =>
    Takes.bind closed_isPlain (takes_token takes_dottedName) fun _ =>
      Takes.bind closed_isPlain (takes_lit (by decide)) fun _ =>
        Takes.bind closed_isPlain takes_identifier fun _ =>
          Takes.bind closed_isPlain (Takes.opt closed_isPlain (takes_lit (by decide))) fun _ =>
            Takes.bind closed_isPlain (takes_lit (by decide)) fun _ =>
              Takes.bind closed_isPlain (takes_lit (by decide)) fun _ =>
                Takes.bind closed_isPlain (Takes.many closed_isPlain takes_field) fun _ =>
                  Takes.bind closed_isPlain (takes_lit (by decide)) fun _ =>
                    Takes.pure closed_isPlain _

theorem takes_messagesSpecification : Takes IsPlain messagesSpecification := by
  have package : Takes IsPlain packageDeclaration :=
    Takes.bind closed_isPlain (takes_lit (by decide)) fun _ =>
      Takes.bind closed_isPlain (takes_token takes_dottedName) fun _ =>
        Takes.bind closed_isPlain (takes_lit (by decide)) fun _ => Takes.pure closed_isPlain _
  exact Takes.bind closed_isPlain (Takes.opt closed_isPlain package) fun _ =>
    Takes.bind closed_isPlain (Takes.many closed_isPlain takes_messageDeclaration) fun _ =>
      Takes.pure closed_isPlain _

/-- **Every text that the grammar takes is a text of tokens.** -/
theorem isPlain_of_parseGrammar {input : Bytes} {ast : MessagesSpecification}
    (h : parseGrammar input = some ast) : IsPlain input := by
  rw [parseGrammar] at h
  split at h
  · rename_i ast' found
    obtain ⟨w, isPlain, rest⟩ := takes_messagesSpecification _ _ _ found
    rw [List.append_nil] at rest
    have blanks : IsPlain (input.takeWhile isWhitespace) :=
      isPlain_of_all ⟨rfl, rfl⟩ _ fun _ member => List.mem_takeWhile_imp member
    have split := List.takeWhile_append_dropWhile (p := isWhitespace) (l := input)
    rw [rest] at split
    exact split ▸ closed_isPlain.append blanks isPlain
  · cases h

end Cluon.MessageParser
