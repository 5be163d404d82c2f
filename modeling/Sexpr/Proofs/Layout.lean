import Sexpr.Proofs.Lexing

/-!
# Layout of source text

A text is laid out as tokens with gaps before, between and after them. A gap is a run of
blanks and comments; it may be empty, but not between two atoms. Main statement: the lexer
yields the tokens of the one layout that a text has, and it fails exactly if a quote stands
where a token may begin and is not closed.
-/
namespace Sexpr.Token

/-! ## Gaps -/

/-- Before `after`, the characters are blanks and comments. A comment ends only before a
line feed or at the end of the text. -/
inductive Gap (after : List Char) : List Char → Prop where
  | nil : Gap after []
  | blank {c gap} : Text.isBlank c = true → Gap after gap → Gap after (c :: gap)
  | comment {words gap} : '\n' ∉ words → (∀ c ∈ (gap ++ after).head?, c = '\n') →
      Gap after gap → Gap after (';' :: (words ++ gap))

theorem Gap.of_blank {after gap : List Char} (h : ∀ c ∈ gap, Text.isBlank c = true) :
    Gap after gap := by
  induction gap with
  | nil => exact .nil
  | cons c rest ih =>
    rw [List.forall_mem_cons] at h
    exact .blank h.1 (ih h.2)

theorem isAtomChar_of_isBlank {c : Char} (h : Text.isBlank c = true) : isAtomChar c = false := by
  simp [isAtomChar, h]

section
variable {after gap : List Char}

/-- Of what follows on a gap, only the first character matters. -/
theorem Gap.of_head {other : List Char} (h : Gap after gap)
    (hhead : ∀ c ∈ other.head?, c ∈ after.head?) : Gap other gap := by
  induction h with
  | nil => exact .nil
  | blank hblank _ ih => exact .blank hblank ih
  | @comment words gap hwords hend _ ih =>
    refine .comment hwords ?_ ih
    intro c hc
    apply hend
    cases gap with
    | nil => exact hhead c hc
    | cons first gap => exact hc

theorem Gap.boundary (h : Gap after gap) (hafter : Boundary after) : Boundary (gap ++ after) := by
  cases h with
  | nil => exact hafter
  | blank hblank => exact boundary_cons (isAtomChar_of_isBlank hblank)
  | comment => exact boundary_cons rfl

theorem lexFrom_comment_collect {words rest : List Char} (h : '\n' ∉ words) (position : Nat) :
    lexFrom .comment position (words ++ rest) =
      lexFrom .comment (position + words.length) rest := by
  induction words generalizing position with
  | nil => rfl
  | cons c words ih =>
    rw [List.mem_cons, not_or] at h
    rw [List.cons_append, lexFrom_cons, Mode.step, if_neg (Ne.symm h.1), Supply.prepend_nil,
      ih h.2]
    simp [Nat.add_right_comm, Nat.add_assoc]

/-- The line feed that ends a comment may as well stand after it. -/
theorem lexFrom_comment_finish {rest : List Char} (h : ∀ c ∈ rest.head?, c = '\n')
    (position : Nat) : lexFrom .comment position rest = lexFrom .between position rest := by
  cases rest with
  | nil => rfl
  | cons c rest =>
    rw [h c rfl]
    rfl

/-- Nothing comes of a gap. -/
theorem lexFrom_gap (h : Gap after gap) (position : Nat) :
    lexFrom .between position (gap ++ after) = lexFrom .between (position + gap.length) after := by
  induction h generalizing position with
  | nil => rfl
  | @blank c gap hblank _ ih =>
    have hcomment : c ≠ ';' := by
      rintro rfl
      cases hblank
    have hbegin : Mode.begin position c = ([], .between) := by
      simp [Mode.begin, hcomment, hblank]
    rw [List.cons_append, lexFrom_cons, step_between, hbegin, Supply.prepend_nil, ih]
    simp [Nat.add_right_comm, Nat.add_assoc]
  | @comment words gap hwords hend _ ih =>
    calc
      lexFrom .between position (';' :: (words ++ gap) ++ after)
        = lexFrom .comment (position + 1) (words ++ (gap ++ after)) := by
          rw [List.cons_append, List.append_assoc]
          rfl
      _ = lexFrom .between (position + 1 + words.length) (gap ++ after) := by
          rw [lexFrom_comment_collect hwords, lexFrom_comment_finish hend]
      _ = lexFrom .between (position + (';' :: (words ++ gap)).length) after := by
          rw [ih, List.length_cons, List.length_append]
          congr 1
          omega

end

/-! ## Tokens and what follows on them -/

section
variable {kind : Kind} {spelling : List Char}

theorem Spelling.ne_nil (h : Spelling kind spelling) : spelling ≠ [] := by
  cases kind with
  | quote | openParen | closeParen =>
    cases h
    exact List.cons_ne_nil _ _
  | string =>
    obtain ⟨body, _, rfl⟩ := h
    exact List.cons_ne_nil _ _
  | atom => exact h.1
  | other => exact h.elim

/-- Only an atom begins with a character that an atom holds. -/
theorem Spelling.boundary (h : Spelling kind spelling) (hkind : kind ≠ .atom)
    (rest : List Char) : Boundary (spelling ++ rest) := by
  cases kind with
  | quote | openParen | closeParen =>
    cases h
    exact boundary_cons rfl
  | string =>
    obtain ⟨body, _, rfl⟩ := h
    exact boundary_cons rfl
  | atom => exact (hkind rfl).elim
  | other => exact h.elim

theorem lexFrom_spelling {rest : List Char} (h : Spelling kind spelling)
    (hrest : kind = .atom → Boundary rest) (position : Nat) :
    lexFrom .between position (spelling ++ rest) =
      (lexFrom .between (position + spelling.length) rest).prepend
        [⟨kind, String.ofList spelling, position⟩] := by
  cases kind with
  | quote =>
    cases h
    exact lexFrom_quote position rest
  | openParen =>
    cases h
    exact lexFrom_open position rest
  | closeParen =>
    cases h
    exact lexFrom_close position rest
  | string =>
    obtain ⟨body, hbody, rfl⟩ := h
    have hstring := @lexFrom_string position body rest hbody
    simpa [Nat.add_assoc] using hstring
  | atom => exact lexFrom_atom h.1 h.2 (hrest rfl)
  | other => exact h.elim

end

/-! ## Layouts -/

/-- A text cut into tokens, with the gaps before, between and after them. -/
inductive Layout where
  | finish (gap : List Char)
  | token (gap : List Char) (kind : Kind) (spelling : List Char) (rest : Layout)
  deriving Repr, DecidableEq

namespace Layout

/-- The text that is laid out. -/
def chars : Layout → List Char
  | finish gap => gap
  | token gap _ spelling rest => gap ++ (spelling ++ rest.chars)

/-- The tokens of the layout, whose text begins at `position`. -/
def tokens (position : Nat) : Layout → List Token
  | finish _ => []
  | token gap kind spelling rest =>
    ⟨kind, String.ofList spelling, (position + gap.length : Nat)⟩ ::
      rest.tokens (position + gap.length + spelling.length)

/-- An atom comes first, with nothing before it. -/
def BeginsWithAtom : Layout → Prop
  | token [] .atom _ _ => True
  | _ => False

/-- The gaps and tokens are what they should be where `after` follows, and there is
something between two atoms. -/
inductive Valid (after : List Char) : Layout → Prop where
  | finish {gap} : Gap after gap → Valid after (.finish gap)
  | token {gap kind spelling rest} : Gap (spelling ++ (rest.chars ++ after)) gap →
      Spelling kind spelling → (kind = .atom → ¬rest.BeginsWithAtom) → Valid after rest →
      Valid after (.token gap kind spelling rest)

variable {after : List Char} {layout : Layout}

theorem Valid.boundary (h : layout.Valid after) (hafter : Boundary after)
    (hatom : ¬layout.BeginsWithAtom) : Boundary (layout.chars ++ after) := by
  cases h with
  | finish hgap => exact hgap.boundary hafter
  | @token gap kind spelling rest hgap hspelling _ _ =>
    rw [chars, List.append_assoc, List.append_assoc]
    cases gap with
    | nil =>
      -- Nothing stands before the token, so it is no atom.
      apply hspelling.boundary
      rintro rfl
      exact hatom trivial
    | cons c gap =>
      cases hgap with
      | blank hblank => exact boundary_cons (isAtomChar_of_isBlank hblank)
      | comment => exact boundary_cons rfl

/-- The lexer finds the tokens of a layout. -/
theorem Valid.lexFrom_eq (h : layout.Valid after) (hafter : Boundary after) (position : Nat) :
    lexFrom .between position (layout.chars ++ after) =
      (lexFrom .between (position + layout.chars.length) after).prepend
        (layout.tokens position) := by
  induction h generalizing position with
  | finish hgap => exact lexFrom_gap hgap position
  | @token gap kind spelling rest hgap hspelling hatom hrest ih =>
    have hboundary : kind = .atom → Boundary (rest.chars ++ after) := fun hkind =>
      hrest.boundary hafter (hatom hkind)
    calc
      lexFrom .between position ((Layout.token gap kind spelling rest).chars ++ after)
        = lexFrom .between (position + gap.length) (spelling ++ (rest.chars ++ after)) := by
          rw [chars, List.append_assoc, List.append_assoc, lexFrom_gap hgap]
      _ = (lexFrom .between (position + gap.length + spelling.length)
            (rest.chars ++ after)).prepend
              [⟨kind, String.ofList spelling, (position + gap.length : Nat)⟩] :=
          lexFrom_spelling hspelling hboundary _
      _ = (lexFrom .between (position + (Layout.token gap kind spelling rest).chars.length)
            after).prepend ((Layout.token gap kind spelling rest).tokens position) := by
          rw [ih, Supply.prepend_prepend]
          simp [chars, tokens, Nat.add_assoc]

/-- A layout is known by its text and its tokens. -/
theorem eq_of_chars_of_tokens {a b : Layout} {position : Nat} (hchars : a.chars = b.chars)
    (htokens : a.tokens position = b.tokens position) : a = b := by
  induction a generalizing b position with
  | finish gap =>
    cases b with
    | finish gap' => exact congrArg finish hchars
    | token => cases htokens
  | token gap kind spelling rest ih =>
    cases b with
    | finish => cases htokens
    | token gap' kind' spelling' rest' =>
      simp only [tokens, List.cons.injEq, Token.mk.injEq] at htokens
      obtain ⟨⟨rfl, hspelling, hposition⟩, hlater⟩ := htokens
      have hspelling : spelling = spelling' := by simpa using congrArg String.toList hspelling
      -- The tokens begin at one place, so the gaps before them are equally long.
      have hlength : gap.length = gap'.length := by omega
      obtain ⟨rfl, hrest⟩ := List.append_inj hchars hlength
      subst hspelling
      rw [ih (List.append_cancel_left hrest) hlater]

/-- The layout with more in its first gap. -/
def widen (front : List Char) : Layout → Layout
  | finish gap => finish (front ++ gap)
  | token gap kind spelling rest => token (front ++ gap) kind spelling rest

@[simp] theorem chars_widen (front : List Char) (layout : Layout) :
    (layout.widen front).chars = front ++ layout.chars := by
  cases layout <;> simp [widen, chars]

theorem Valid.blank {c : Char} (h : layout.Valid after) (hblank : Text.isBlank c = true) :
    (layout.widen [c]).Valid after := by
  cases h with
  | finish hgap => exact .finish (.blank hblank hgap)
  | token hgap hspelling hatom hrest => exact .token (.blank hblank hgap) hspelling hatom hrest

theorem Valid.comment {words : List Char} (h : layout.Valid after) (hwords : '\n' ∉ words)
    (hend : ∀ c ∈ (layout.chars ++ after).head?, c = '\n') :
    (layout.widen (';' :: words)).Valid after := by
  cases h with
  | finish hgap => exact .finish (.comment hwords hend hgap)
  | token hgap hspelling hatom hrest =>
    rw [chars, List.append_assoc, List.append_assoc] at hend
    exact .token (.comment hwords hend hgap) hspelling hatom hrest

/-- A layout before some text is one at the end of the text, too. -/
theorem Valid.at_end (h : layout.Valid after) : layout.Valid [] := by
  induction h with
  | finish hgap => exact .finish (hgap.of_head nofun)
  | @token gap kind spelling rest hgap hspelling hatom _ ih =>
    refine .token (hgap.of_head ?_) hspelling hatom ih
    obtain ⟨c, spelling, rfl⟩ := List.exists_cons_of_ne_nil hspelling.ne_nil
    exact fun _ h => h

end Layout

/-! ## Strings that are not closed -/

/-- Somewhere in the text after it, the quote of a string is closed. -/
def Closes (chars : List Char) : Prop :=
  ∃ body rest, Text.Quoted.Body body ∧ chars = body ++ '"' :: rest

theorem Closes.plain {c : Char} {chars : List Char} (h : Closes chars) (hslash : c ≠ '\\')
    (hquote : c ≠ '"') : Closes (c :: chars) := by
  obtain ⟨body, rest, hbody, rfl⟩ := h
  exact ⟨c :: body, rest, .plain hslash hquote hbody, rfl⟩

theorem Closes.escape {sign : Char} {chars : List Char} (h : Closes chars) :
    Closes ('\\' :: sign :: chars) := by
  obtain ⟨body, rest, hbody, rfl⟩ := h
  exact ⟨'\\' :: sign :: body, rest, .escape hbody, rfl⟩

/-- A string that is not closed takes all the text up to its end, also from within an
escape. -/
theorem lexFrom_unclosed (start : Nat) (chars : List Char) :
    ∀ position read,
      (¬Closes chars → lexFrom (.string start read) position chars =
        ⟨[], some (.unterminatedString start)⟩) ∧
      (¬Closes ('\\' :: chars) → lexFrom (.escape start read) position chars =
        ⟨[], some (.unterminatedString start)⟩) := by
  induction chars with
  | nil => exact fun _ _ => ⟨fun _ => rfl, fun _ => rfl⟩
  | cons c rest ih =>
    intro position read
    constructor
    · intro hopen
      rw [lexFrom_cons, Mode.step]
      by_cases hslash : c = '\\'
      · subst hslash
        exact (ih (position + 1) _).2 hopen
      by_cases hquote : c = '"'
      · subst hquote
        exact (hopen ⟨[], rest, .nil, rfl⟩).elim
      rw [if_neg hslash, if_neg hquote]
      exact (ih (position + 1) _).1 fun hcloses => hopen (hcloses.plain hslash hquote)
    · intro hopen
      exact (ih (position + 1) _).1 fun hcloses => hopen hcloses.escape

/-- The text begins with a quote that is not closed. -/
def Unclosed (chars : List Char) : Prop :=
  ∃ rest, chars = '"' :: rest ∧ ¬Closes rest

theorem Unclosed.boundary {chars : List Char} (h : Unclosed chars) : Boundary chars := by
  obtain ⟨rest, rfl, _⟩ := h
  exact boundary_cons rfl

theorem Unclosed.lexFrom_eq {chars : List Char} (h : Unclosed chars) (position : Nat) :
    lexFrom .between position chars = ⟨[], some (.unterminatedString position)⟩ := by
  obtain ⟨rest, rfl, hopen⟩ := h
  exact (lexFrom_unclosed position rest (position + 1) ['"']).1 hopen

/-! ## Laying out a text -/

/-- The text is laid out up to its end, or else up to a quote that is not closed. -/
def LaidOut (chars : List Char) : Prop :=
  ∃ (layout : Layout) (after : List Char), layout.Valid after ∧ chars = layout.chars ++ after ∧
    (after = [] ∨ Unclosed after)

section
variable {rest : List Char}

theorem LaidOut.blank {c : Char} (h : LaidOut rest) (hblank : Text.isBlank c = true) :
    LaidOut (c :: rest) := by
  obtain ⟨layout, after, hvalid, rfl, hend⟩ := h
  exact ⟨_, after, hvalid.blank hblank, by simp, hend⟩

theorem LaidOut.comment {words : List Char} (h : LaidOut rest) (hwords : '\n' ∉ words)
    (hrest : ∀ c ∈ rest.head?, c = '\n') : LaidOut (';' :: (words ++ rest)) := by
  obtain ⟨layout, after, hvalid, rfl, hend⟩ := h
  exact ⟨_, after, hvalid.comment hwords hrest, by simp, hend⟩

theorem LaidOut.token {kind : Kind} {spelling : List Char} (h : LaidOut rest)
    (hspelling : Spelling kind spelling) (hrest : kind = .atom → Boundary rest) :
    LaidOut (spelling ++ rest) := by
  obtain ⟨layout, after, hvalid, rfl, hend⟩ := h
  refine ⟨.token [] kind spelling layout, after, .token .nil hspelling ?_ hvalid, by
    simp [Layout.chars], hend⟩
  intro hkind hatom
  -- What comes after an atom begins with no atom, since that would belong to the first.
  cases hvalid with
  | finish => exact hatom
  | @token gap _ _ _ _ hnext =>
    cases gap with
    | cons => exact hatom
    | nil =>
      unfold Layout.BeginsWithAtom at hatom
      split at hatom
      · rename_i heq
        cases heq
        obtain ⟨hne, hchars⟩ := hnext
        obtain ⟨c, others, rfl⟩ := List.exists_cons_of_ne_nil hne
        have hc := hrest hkind c rfl
        simp [hchars c List.mem_cons_self] at hc
      · exact hatom

/-- The characters that satisfy `p`, up to the first that does not. -/
theorem exists_span (p : Char → Bool) (chars : List Char) :
    ∃ front rest, chars = front ++ rest ∧ (∀ c ∈ front, p c = true) ∧
      ∀ c ∈ rest.head?, p c = false := by
  refine ⟨chars.takeWhile p, chars.dropWhile p, (List.takeWhile_append_dropWhile).symm,
    fun c hc => List.all_eq_true.mp List.all_takeWhile c hc, ?_⟩
  intro c hc
  have hhead := List.head?_dropWhile_not p chars
  rw [hc] at hhead
  exact hhead

/-- A character that begins no atom, no gap and no string is a token by itself. -/
theorem exists_sign {c : Char} (hatom : ¬isAtomChar c = true) (hblank : ¬Text.isBlank c = true)
    (hcomment : c ≠ ';') (hstring : c ≠ '"') : ∃ kind, kind ≠ .atom ∧ Spelling kind [c] := by
  have hsign : c = '(' ∨ c = ')' ∨ c = '\'' := by
    simpa [isAtomChar, hblank, hcomment, hstring, Decidable.or_iff_not_imp_left] using hatom
  rcases hsign with rfl | rfl | rfl
  · exact ⟨.openParen, by simp, rfl⟩
  · exact ⟨.closeParen, by simp, rfl⟩
  · exact ⟨.quote, by simp, rfl⟩

/-- Every text is laid out, by what its first character is. -/
theorem laidOut (chars : List Char) : LaidOut chars := by
  induction hlength : chars.length using Nat.strongRecOn generalizing chars with
  | ind length ih =>
    subst hlength
    cases chars with
    | nil => exact ⟨.finish [], [], .finish .nil, rfl, .inl rfl⟩
    | cons c rest =>
      have hrest {others : List Char} (h : others.length ≤ rest.length) : LaidOut others :=
        ih _ (Nat.lt_succ_of_le h) others rfl
      by_cases hatom : isAtomChar c = true
      · obtain ⟨front, others, rfl, hfront, hothers⟩ := exists_span isAtomChar rest
        have hspelling : Spelling .atom (c :: front) :=
          ⟨List.cons_ne_nil c front, List.forall_mem_cons.mpr ⟨hatom, hfront⟩⟩
        have hlater : LaidOut others := hrest (by simp)
        exact hlater.token hspelling fun _ => hothers
      by_cases hblank : Text.isBlank c = true
      · exact (hrest (Nat.le_refl _)).blank hblank
      by_cases hcomment : c = ';'
      · subst hcomment
        obtain ⟨words, others, rfl, hwords, hothers⟩ := exists_span (· ≠ '\n') rest
        have hlater : LaidOut others := hrest (by simp)
        refine hlater.comment ?_ (by simpa using hothers)
        intro hmem
        exact of_decide_eq_true (hwords _ hmem) rfl
      by_cases hstring : c = '"'
      · subst hstring
        by_cases hcloses : Closes rest
        · obtain ⟨body, others, hbody, rfl⟩ := hcloses
          have hspelling : Spelling .string ('"' :: (body ++ ['"'])) := ⟨body, hbody, rfl⟩
          have hlater : LaidOut others :=
            hrest (by rw [List.length_append, List.length_cons]; omega)
          simpa using hlater.token hspelling nofun
        · exact ⟨.finish [], '"' :: rest, .finish .nil, rfl, .inr ⟨rest, rfl, hcloses⟩⟩
      -- What is left are the signs that are tokens by themselves.
      obtain ⟨kind, hkind, hspelling⟩ := exists_sign hatom hblank hcomment hstring
      exact (hrest (Nat.le_refl _)).token hspelling fun h => (hkind h).elim

end

section
variable {layout : Layout} {source : String}

theorem Layout.Valid.lex_eq (h : layout.Valid []) (hchars : layout.chars = source.toList) :
    lex source = ⟨layout.tokens 0, none⟩ := by
  have hrun := h.lexFrom_eq boundary_nil 0
  rw [List.append_nil, hchars] at hrun
  rw [lex, hrun]
  simp [lexFrom, Mode.finish, Supply.prepend]

theorem Layout.Valid.lex_eq_unclosed {after : List Char} (h : layout.Valid after)
    (hchars : source.toList = layout.chars ++ after) (hopen : Unclosed after) :
    lex source = ⟨layout.tokens 0, some (.unterminatedString layout.chars.length)⟩ := by
  rw [lex, hchars, h.lexFrom_eq hopen.boundary, hopen.lexFrom_eq]
  simp [Supply.prepend]

end

/-- At `position`, where a token may begin, stands a quote that is not closed. -/
def UnclosedAt (chars : List Char) (position : Nat) : Prop :=
  ∃ (layout : Layout) (after : List Char), layout.Valid after ∧ chars = layout.chars ++ after ∧
    layout.chars.length = position ∧ Unclosed after

/-- The lexer stops at a quote that is not closed, with the tokens of the text before it. -/
theorem UnclosedAt.lex_eq {source : String} {position : Nat}
    (h : UnclosedAt source.toList position) :
    ∃ tokens, lex source = ⟨tokens, some (.unterminatedString position)⟩ ∧
      lex (String.ofList (source.toList.take position)) = ⟨tokens, none⟩ := by
  obtain ⟨layout, after, hvalid, hchars, rfl, hopen⟩ := h
  refine ⟨layout.tokens 0, hvalid.lex_eq_unclosed hchars hopen, ?_⟩
  apply hvalid.at_end.lex_eq
  rw [hchars, List.take_left, String.toList_ofList]

/-- A text has a layout, or a quote in it is not closed. -/
theorem valid_or_unclosedAt (source : String) :
    (∃ layout : Layout, layout.Valid [] ∧ layout.chars = source.toList) ∨
      ∃ position, UnclosedAt source.toList position := by
  obtain ⟨layout, after, hvalid, hchars, rfl | hopen⟩ := laidOut source.toList
  · exact .inl ⟨layout, hvalid, by rw [hchars, List.append_nil]⟩
  · exact .inr ⟨_, layout, after, hvalid, hchars, rfl, hopen⟩

/-- The lexer yields exactly the tokens of the layout that a text has, with their kinds,
texts and places, and no text has two. It fails exactly if a quote where a token may begin
is not closed. The error is at the first such quote, and the tokens before it are those of
the text before it. -/
theorem lex_iff_layout (source : String) :
    (∀ tokens, lex source = ⟨tokens, none⟩ ↔ ∃ layout : Layout, layout.Valid [] ∧
      layout.chars = source.toList ∧ layout.tokens 0 = tokens) ∧
    (∀ layout other : Layout, layout.Valid [] → layout.chars = source.toList →
      other.Valid [] → other.chars = source.toList → layout = other) ∧
    ((∃ error, (lex source).error? = some error) ↔
      ∃ position, UnclosedAt source.toList position) ∧
    ∀ error, (lex source).error? = some error → ∃ position : Nat,
      error = .unterminatedString position ∧ UnclosedAt source.toList position ∧
      (∀ other, UnclosedAt source.toList other → position ≤ other) ∧
      lex (String.ofList (source.toList.take position)) = ⟨(lex source).tokens, none⟩ := by
  refine ⟨fun tokens => ⟨?_, ?_⟩, ?_, ⟨?_, ?_⟩, ?_⟩
  · intro hlex
    rcases valid_or_unclosedAt source with ⟨layout, hvalid, hchars⟩ | ⟨position, hopen⟩
    · rw [hvalid.lex_eq hchars] at hlex
      cases hlex
      exact ⟨layout, hvalid, hchars, rfl⟩
    · obtain ⟨_, herror, _⟩ := hopen.lex_eq
      rw [hlex] at herror
      cases herror
  · rintro ⟨layout, hvalid, hchars, rfl⟩
    exact hvalid.lex_eq hchars
  · intro layout other hvalid hchars hvalid' hchars'
    have htokens := hvalid.lex_eq hchars
    rw [hvalid'.lex_eq hchars'] at htokens
    exact Layout.eq_of_chars_of_tokens (hchars.trans hchars'.symm)
      (congrArg Supply.tokens htokens).symm
  · rintro ⟨error, herror⟩
    rcases valid_or_unclosedAt source with ⟨layout, hvalid, hchars⟩ | hopen
    · rw [hvalid.lex_eq hchars] at herror
      cases herror
    · exact hopen
  · rintro ⟨position, hopen⟩
    obtain ⟨_, herror, _⟩ := hopen.lex_eq
    exact ⟨_, congrArg Supply.error? herror⟩
  · intro error herror
    rcases valid_or_unclosedAt source with ⟨layout, hvalid, hchars⟩ | ⟨position, hopen⟩
    · rw [hvalid.lex_eq hchars] at herror
      cases herror
    · obtain ⟨tokens, hlex, hbefore⟩ := hopen.lex_eq
      rw [hlex] at herror
      cases herror
      refine ⟨position, rfl, hopen, ?_, by rw [hbefore, hlex]⟩
      -- The lexer stops at every quote of this kind, so there is but one.
      intro other hother
      obtain ⟨_, hlex', _⟩ := hother.lex_eq
      rw [hlex] at hlex'
      injection hlex' with _ herror
      injection herror with herror
      injection herror with hposition
      omega

/-- A comment that ends where its line does, an escaped quote in a string, and an atom right
after it; and a quote that is not closed after a comment that holds another. -/
theorem lex_iff_layout_sample :
    lex ";a\n \"\\\"\"b" = ⟨[⟨.string, "\"\\\"\"", 4⟩, ⟨.atom, "b", 8⟩], none⟩ ∧
      (lex ";\"\n'\"(").error? = some (.unterminatedString 4) ∧
      lex ";\"\n'" = ⟨[⟨.quote, "'", 3⟩], none⟩ := by
  have hgap : Gap ['"', '\\', '"', '"', 'b'] [';', 'a', '\n', ' '] :=
    @Gap.comment _ ['a'] ['\n', ' '] (by simp) (by simp) (.blank rfl (.blank rfl .nil))
  have hstring : Spelling .string ['"', '\\', '"', '"'] := ⟨['\\', '"'], .escape .nil, rfl⟩
  have hatom : Spelling .atom ['b'] := ⟨nofun, List.forall_mem_singleton.mpr rfl⟩
  have hvalid : (Layout.token [';', 'a', '\n', ' '] .string ['"', '\\', '"', '"']
      (.token [] .atom ['b'] (.finish []))).Valid [] :=
    .token hgap hstring nofun (.token .nil hatom (fun _ => id) (.finish .nil))
  have herror : (lex ";\"\n'\"(").error? = some (.unterminatedString 4) := rfl
  obtain ⟨position, heq, _, _, hbefore⟩ := (lex_iff_layout ";\"\n'\"(").2.2.2 _ herror
  injection heq with heq
  obtain rfl : position = 4 := by omega
  exact ⟨((lex_iff_layout _).1 _).mpr ⟨_, hvalid, rfl, rfl⟩, herror, hbefore⟩

end Sexpr.Token
