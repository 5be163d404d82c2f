import Sexpr.Proofs.Grammar

/-!
# What the parser answers

The parser takes the front part of the tokens that is an expression. There is at most
one such part; if there is none, the frames that the tokens have opened say what is
wrong. Main statement: how a stream of tokens answers when it is asked for an
expression, or for all of them, in terms of the grammar.
-/
namespace Sexpr

/-- The token is of a kind that source text has, and its text has a meaning. -/
def Token.Decodes (token : Token) : Prop :=
  match token.kind with
  | .quote | .openParen | .closeParen => True
  | .atom => ∃ value, Value.ofAtom token.text = .ok value
  | .string => ∃ text, decodeBody (token.position + 1) token.body = .ok text
  | .other _ => False

namespace Parser

variable (error? : Option SyntaxError)

/-! ## Open frames -/

/-- Tokens that have left frames open bring the parser to these frames. -/
theorem parseFrom_opened {frames : List Frame} {tokens : List Token} (h : Opened frames tokens)
    (rest : List Token) :
    parseFrom error? [] (tokens ++ rest) = parseFrom error? frames rest := by
  induction h generalizing rest with
  | nil => rfl
  | @quote frames tokens token _ hkind ih =>
    rw [List.append_assoc, ih]
    exact parseFrom_step error? (step_quote frames hkind) rest
  | @list frames tokens token others members _ hkind hmembers ih =>
    calc
      parseFrom error? [] (tokens ++ token :: others ++ rest)
        = parseFrom error? frames (token :: (others ++ rest)) := by
          rw [List.append_assoc, ih, List.cons_append]
      _ = parseFrom error? (.list token.position [] :: frames) (others ++ rest) :=
          parseFrom_step error? (step_open frames hkind) _
      _ = parseFrom error? (.list token.position members :: frames) rest := by
          rw [parseFrom_derivesEach error? hmembers]
          simp

/-- A token with a meaning is refused only if it is a parenthesis that closes no list:
nothing is open, or a quote is that still waits for its expression. -/
theorem step_error_iff {frames : List Frame} {token : Token} {error : ReadError}
    (h : token.Decodes) :
    step frames token = .error error ↔ token.kind = .closeParen ∧
      (frames = [] ∨ ∃ position outer, frames = .quote position :: outer) ∧
      error = .malformed (.unexpectedClose token.position) := by
  unfold Token.Decodes at h
  unfold step
  split at h
  · rename_i hkind
    simp [hkind]
  · rename_i hkind
    simp [hkind]
  · rename_i hkind
    -- The innermost frame decides: a list is closed, all else is an error.
    cases frames with
    | nil => simpa [hkind] using eq_comm
    | cons frame outer =>
      cases frame with
      | quote position => simpa [hkind] using eq_comm
      | list position members => simp [hkind]
  · rename_i hkind
    obtain ⟨value, hvalue⟩ := h
    simp [hkind, hvalue, Functor.map, Except.map]
  · rename_i hkind
    obtain ⟨text, htext⟩ := h
    simp [hkind, htext, bind, Except.bind, pure, Except.pure]
  · exact h.elim

/-! ## Answers -/

/-- The answer that the grammar gives for the tokens, which end in `error?`. -/
inductive Accounts : List Token → Parsed → Prop where
  | value {front rest value} : Derives front value →
      Accounts (front ++ rest) (.value value ⟨rest, error?⟩)
  | done : error? = none → Accounts [] .done
  /-- The frames that are open do not allow for the token. -/
  | refused {frames front token rest error} : Opened frames front →
      step frames token = .error error →
      Accounts (front ++ token :: rest) (.failed error ⟨rest, error?⟩)
  /-- The tokens end while the frames are open, or in an error. -/
  | ended {frames tokens error} : Opened frames tokens → ending error? frames = some error →
      Accounts tokens (.failed (.malformed error) ⟨[], none⟩)

theorem accounts_parseFrom {frames : List Frame} {before : List Token} (h : Opened frames before)
    (tokens : List Token) :
    Accounts error? (before ++ tokens) (parseFrom error? frames tokens) := by
  induction tokens generalizing frames before with
  | nil =>
    rw [parseFrom, List.append_nil]
    cases hend : ending error? frames with
    | some error => exact .ended h hend
    | none =>
      -- Only between expressions can the end come without an error.
      cases h with
      | nil => exact .done (by simpa [ending, finish] using hend)
      | quote | list => cases error? <;> cases hend
  | cons token rest ih =>
    rw [parseFrom]
    cases hstep : step frames token with
    | error error => exact .refused h hstep
    | ok progress =>
      have hreached := step_reached h hstep
      rw [← List.singleton_append, ← List.append_assoc]
      cases progress with
      | complete value => exact .value hreached
      | pending frames => exact ih hreached

/-- The parser gives the answer of the grammar. -/
theorem parseFrom_eq_iff {tokens : List Token} {answer : Parsed} :
    parseFrom error? [] tokens = answer ↔ Accounts error? tokens answer := by
  constructor
  · rintro rfl
    exact accounts_parseFrom error? .nil tokens
  · intro h
    cases h with
    | value hderives => exact parseFrom_derives error? hderives [] _
    | done herror => rw [parseFrom, herror]; rfl
    | refused hopened hstep => rw [parseFrom_opened error? hopened, parseFrom, hstep]
    | @ended frames _ _ hopened hend =>
      have hrun := parseFrom_opened error? hopened []
      rw [List.append_nil] at hrun
      rw [hrun, parseFrom, hend]

/-- Of the front parts of some tokens, one at most is an expression. -/
theorem derives_unique {tokens front front' : List Token} {value value' : Value}
    (hfront : front <+: tokens) (hfront' : front' <+: tokens) (h : Derives front value)
    (h' : Derives front' value') : front = front' ∧ value = value' := by
  obtain ⟨rest, rfl⟩ := hfront
  obtain ⟨rest', htokens⟩ := hfront'
  have hanswer : Accounts none (front ++ rest) (.value value' ⟨rest', none⟩) :=
    htokens ▸ .value h'
  have heq := (parseFrom_eq_iff none).mpr hanswer
  rw [(parseFrom_eq_iff none).mpr (.value h)] at heq
  cases heq
  exact ⟨(List.append_cancel_right htokens).symm, rfl⟩

end Parser

/-! ## Streams of given tokens -/

namespace TokenStream

open Sexpr.Parser

section
variable {tokens : List Token} {after : TokenStream}

theorem parse_eq_iff {result : Except ReadError (Option Value) × TokenStream} :
    (ofTokens tokens).parse = result ↔ ∃ answer, Accounts none tokens answer ∧ reply answer = result := by
  have hparse : (ofTokens tokens).parse = reply (parseFrom none [] tokens) :=
    parse_eq_reply (oneAhead_ofSupply _)
  constructor
  · intro h
    exact ⟨_, accounts_parseFrom none .nil tokens, hparse ▸ h⟩
  · rintro ⟨answer, haccounts, hreply⟩
    rw [hparse, (parseFrom_eq_iff none).mpr haccounts, hreply]

theorem parse_eq_value_iff {value : Value} :
    (ofTokens tokens).parse = (.ok (some value), after) ↔
      ∃ front rest, tokens = front ++ rest ∧ Derives front value ∧ after = .ofTokens rest := by
  rw [parse_eq_iff]
  constructor
  · rintro ⟨answer, haccounts, hreply⟩
    cases haccounts with
    | value hderives =>
      cases hreply
      exact ⟨_, _, rfl, hderives, rfl⟩
    | done | refused | ended => cases hreply
  · rintro ⟨front, rest, rfl, hderives, rfl⟩
    exact ⟨_, .value hderives, rfl⟩

theorem parse_eq_end_iff :
    (ofTokens tokens).parse = (.ok none, after) ↔ tokens = [] ∧ after = .ofTokens [] := by
  rw [parse_eq_iff]
  constructor
  · rintro ⟨answer, haccounts, hreply⟩
    cases haccounts with
    | done =>
      cases hreply
      exact ⟨rfl, rfl⟩
    | value | refused | ended => cases hreply
  · rintro ⟨rfl, rfl⟩
    exact ⟨_, .done rfl, rfl⟩

/-- Tokens with a meaning are refused at the first parenthesis that closes no list, or
else for what is still open at their end. -/
theorem parse_eq_error_iff {error : ReadError} (hdecodes : ∀ token ∈ tokens, token.Decodes) :
    (ofTokens tokens).parse = (.error error, after) ↔
      (∃ front token rest frames, tokens = front ++ token :: rest ∧ Opened frames front ∧
        token.kind = .closeParen ∧
        (frames = [] ∨ ∃ position outer, frames = .quote position :: outer) ∧
        error = .malformed (.unexpectedClose token.position) ∧ after = .ofTokens rest) ∨
      (∃ position outer, Opened (.quote position :: outer) tokens ∧
        error = .malformed (.nothingToQuote position) ∧ after = .ofTokens []) ∨
      ∃ position members outer, Opened (.list position members :: outer) tokens ∧
        error = .malformed (.unmatchedOpen position) ∧ after = .ofTokens [] := by
  rw [parse_eq_iff]
  constructor
  · rintro ⟨answer, haccounts, hreply⟩
    cases haccounts with
    | value | done => cases hreply
    | @refused frames front token rest _ hopened hstep =>
      cases hreply
      obtain ⟨hkind, hframes, herror⟩ := (step_error_iff (hdecodes token (by simp))).mp hstep
      exact .inl ⟨front, token, rest, frames, rfl, hopened, hkind, hframes, herror, rfl⟩
    | @ended frames _ _ hopened hend =>
      cases hreply
      cases hopened with
      | nil => cases hend
      | quote hopened hkind =>
        cases hend
        exact .inr (.inl ⟨_, _, .quote hopened hkind, rfl, rfl⟩)
      | list hopened hkind hmembers =>
        cases hend
        exact .inr (.inr ⟨_, _, _, .list hopened hkind hmembers, rfl, rfl⟩)
  · rintro (⟨front, token, rest, frames, rfl, hopened, hkind, hframes, rfl, rfl⟩ |
      ⟨position, outer, hopened, rfl, rfl⟩ | ⟨position, members, outer, hopened, rfl, rfl⟩)
    · have hstep := (step_error_iff (hdecodes token (by simp))).mpr ⟨hkind, hframes, rfl⟩
      exact ⟨_, .refused hopened hstep, rfl⟩
    · exact ⟨_, .ended hopened rfl, rfl⟩
    · exact ⟨_, .ended hopened rfl, rfl⟩

theorem parseAll_eq_ok_iff {values : List Value} :
    (ofTokens tokens).parseAll.1 = .ok values ↔ DerivesEach tokens values := by
  have hall : (ofTokens tokens).parseAll.1 = (parseAllFrom none [] tokens).all :=
    congrArg Prod.fst (parseAll_ofSupply _)
  rw [hall, Reading.all_eq_ok_iff]
  constructor
  · rintro ⟨hend, rfl⟩
    exact derivesEach_of_parseAllFrom none .nil hend
  · intro h
    have hreading := parseAllFrom_derivesEach none h []
    rw [List.append_nil] at hreading
    rw [hreading]
    simp [parseAllFrom, ending, finish]

end

/-- A stream of given tokens answers as the grammar says. Asked for an expression, it has
the value of the front part that is one, and there is at most one such part; it is at its
end exactly if there are no tokens; and tokens with a meaning are refused exactly for a
parenthesis that closes no list, or at their end for the innermost frame that is open.
Asked for all, it has the values of which the tokens are the expressions. -/
theorem parse_iff_derives (tokens : List Token) :
    let stream := ofTokens tokens
    (∀ value after, stream.parse = (.ok (some value), after) ↔
      ∃ front rest, tokens = front ++ rest ∧ Derives front value ∧ after = .ofTokens rest) ∧
    (∀ front front' value value', front <+: tokens → front' <+: tokens → Derives front value →
      Derives front' value' → front = front' ∧ value = value') ∧
    (∀ after, stream.parse = (.ok none, after) ↔ tokens = [] ∧ after = .ofTokens []) ∧
    ((∀ token ∈ tokens, token.Decodes) → ∀ error after, stream.parse = (.error error, after) ↔
      (∃ front token rest frames, tokens = front ++ token :: rest ∧ Opened frames front ∧
        token.kind = .closeParen ∧
        (frames = [] ∨ ∃ position outer, frames = .quote position :: outer) ∧
        error = .malformed (.unexpectedClose token.position) ∧ after = .ofTokens rest) ∨
      (∃ position outer, Opened (.quote position :: outer) tokens ∧
        error = .malformed (.nothingToQuote position) ∧ after = .ofTokens []) ∨
      ∃ position members outer, Opened (.list position members :: outer) tokens ∧
        error = .malformed (.unmatchedOpen position) ∧ after = .ofTokens []) ∧
    ∀ values, stream.parseAll.1 = .ok values ↔ DerivesEach tokens values :=
  ⟨fun _ _ => parse_eq_value_iff, fun _ _ _ _ => derives_unique, fun _ => parse_eq_end_iff,
    fun hdecodes _ _ => parse_eq_error_iff hdecodes, fun _ => parseAll_eq_ok_iff⟩

/-- In `'(a ')` the quote before the parenthesis has nothing to quote, and the list is open
with one member. -/
theorem parse_iff_derives_sample :
    let tokens : List Token := [⟨.quote, "'", 0⟩, ⟨.openParen, "(", 1⟩, ⟨.atom, "a", 2⟩,
      ⟨.quote, "'", 4⟩, ⟨.closeParen, ")", 5⟩]
    (∀ token ∈ tokens, token.Decodes) ∧
      (ofTokens tokens).parse = (.error (.malformed (.unexpectedClose 5)), .ofTokens []) := by
  intro tokens
  have hatom : Value.ofAtom "a" = .ok (.sym "a") := rfl
  have hdecodes : ∀ token ∈ tokens, token.Decodes := by
    simp [tokens, Token.Decodes, hatom]
  have hquote := @Opened.quote [] [] ⟨.quote, "'", 0⟩ .nil rfl
  have hlist := @Opened.list _ _ ⟨.openParen, "(", 1⟩ _ [.sym "a"] hquote rfl
    (.single (@Derives.atom ⟨.atom, "a", 2⟩ _ rfl hatom))
  have hinner := @Opened.quote _ _ ⟨.quote, "'", 4⟩ hlist rfl
  refine ⟨hdecodes, ((parse_iff_derives tokens).2.2.2.1 hdecodes _ _).mpr (.inl ?_)⟩
  exact ⟨_, ⟨.closeParen, ")", 5⟩, [], _, rfl, hinner, rfl, .inr ⟨4, _, rfl⟩, rfl, rfl⟩

end TokenStream
end Sexpr
