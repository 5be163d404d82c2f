import Sexpr.Proofs.Culprits
import Sexpr.Proofs.Parsing

/-!
# Streams, step by step

A stream can be asked for tokens and for expressions in any order. What a step answers and
which tokens it takes depends only on the tokens that are still to come, whether one of them
has been looked at or not. Main statement: whatever the steps, the tokens are taken from the
first on, none is left out or taken twice, and the error in which they end is reported once,
by the first step that comes to it.
-/
namespace Sexpr

namespace Parser

/-! ## Reading all expressions -/

variable (error? : Option SyntaxError)

/-- An answer that ends the reading, and what it leaves. -/
inductive Parsed.Closes : Parsed → Option ReadError → Token.Supply → Prop where
  | done : Closes .done none ⟨[], none⟩
  | failed {error rest} : Closes (.failed error rest) (some error) rest

/-- Reading all of the tokens takes the expressions at their front, and ends as reading one
expression from the others does. -/
theorem exists_closes (tokens : List Token) :
    ∃ front back answer, tokens = front ++ back ∧
      DerivesEach front (parseAllFrom error? [] tokens).values ∧ Accounts error? back answer ∧
      answer.Closes (parseAllFrom error? [] tokens).error?
        (parseAllFrom error? [] tokens).rest := by
  induction hlength : tokens.length using Nat.strongRecOn generalizing tokens with
  | ind length ih =>
    have haccounts := accounts_parseFrom error? .nil tokens
    rw [List.nil_append] at haccounts
    rw [parseAllFrom_eq]
    cases hanswer : parseFrom error? [] tokens with
    | done =>
      rw [hanswer] at haccounts
      exact ⟨[], tokens, _, rfl, .nil, haccounts, .done⟩
    | failed error rest =>
      rw [hanswer] at haccounts
      exact ⟨[], tokens, _, rfl, .nil, haccounts, .failed⟩
    | value value rest =>
      rw [hanswer] at haccounts
      cases haccounts with
      | @value first others _ hderives =>
        have hshorter := (of_parseFrom_eq_value hanswer).1
        obtain ⟨front, back, answer, rfl, heach, hrest, hcloses⟩ :=
          ih _ (hlength ▸ hshorter) others rfl
        exact ⟨first ++ front, back, answer, by rw [List.append_assoc], .cons hderives heach, hrest,
          hcloses⟩

theorem parseAllFrom_eq_of_closes {front back : List Token} {values : List Value} {answer : Parsed}
    {last? : Option ReadError} {rest : Token.Supply} (heach : DerivesEach front values)
    (haccounts : Accounts error? back answer) (hcloses : answer.Closes last? rest) :
    parseAllFrom error? [] (front ++ back) = ⟨values, last?, rest⟩ := by
  have hback : parseAllFrom error? [] back = ⟨[], last?, rest⟩ := by
    rw [parseAllFrom_eq, (parseFrom_eq_iff error?).mpr haccounts]
    cases hcloses <;> rfl
  rw [parseAllFrom_derivesEach error? heach, hback]
  simp

end Parser

namespace TokenStream

open Sexpr.Parser

/-! ## Steps -/

/-- What a stream can be asked for. -/
inductive Step where
  | peek | advance | parse | parseAll
  deriving Repr, DecidableEq

/-- What a stream answers. -/
inductive Reply where
  | token (token? : Option Token)
  | expression (value? : Option Value)
  | expressions (values : List Value)
  | error (error : ReadError)

/-- The reply that passes on a result. -/
def Reply.pass {ε α : Type} (wrap : α → Reply) (fault : ε → ReadError) : Except ε α → Reply
  | .ok a => wrap a
  | .error reason => .error (fault reason)

/-- The reply at the end of the tokens. -/
def Step.atEnd : Step → Reply
  | .peek | .advance => .token none
  | .parse => .expression none
  | .parseAll => .expressions []

/-- Make a step. -/
def serve (stream : TokenStream) : Step → Reply × TokenStream
  | .peek => stream.peek.map (.pass .token .malformed) id
  | .advance => stream.advance.map (.pass .token .malformed) id
  | .parse => stream.parse.map (.pass .expression id) id
  | .parseAll => stream.parseAll.map (.pass .expressions id) id

/-- The tokens that the step takes: those that are to come before it and not after it. -/
def taken (stream : TokenStream) (step : Step) : List Token :=
  stream.remaining.tokens.take
    (stream.remaining.tokens.length - (stream.serve step).2.remaining.tokens.length)

/-! ## Runs of steps -/

/-- The stream after the steps. -/
def after (stream : TokenStream) (steps : List Step) : TokenStream :=
  steps.foldl (fun stream step => (stream.serve step).2) stream

/-- The replies to the steps. -/
def replies (stream : TokenStream) : List Step → List Reply
  | [] => []
  | step :: steps => (stream.serve step).1 :: replies (stream.serve step).2 steps

/-- The tokens that the steps take, one after the other. -/
def takenEach (stream : TokenStream) : List Step → List Token
  | [] => []
  | step :: steps => stream.taken step ++ takenEach (stream.serve step).2 steps

@[simp] theorem after_nil (stream : TokenStream) : stream.after [] = stream := rfl

@[simp] theorem after_cons (stream : TokenStream) (step : Step) (steps : List Step) :
    stream.after (step :: steps) = (stream.serve step).2.after steps := rfl

@[simp] theorem after_append (stream : TokenStream) (before later : List Step) :
    stream.after (before ++ later) = (stream.after before).after later :=
  List.foldl_append

theorem replies_append (stream : TokenStream) (before later : List Step) :
    stream.replies (before ++ later) =
      stream.replies before ++ (stream.after before).replies later := by
  induction before generalizing stream with
  | nil => rfl
  | cons step before ih => rw [List.cons_append, replies, replies, ih, List.cons_append, after_cons]

/-! ## What a step does -/

/-- The step takes all of these tokens and then needs to know what comes after them. -/
def Step.RunsOut : Step → List Token → Prop
  | .peek, tokens | .advance, tokens => tokens = []
  | .parse, tokens => ∃ frames, Opened frames tokens
  | .parseAll, tokens => ∃ front values back frames, tokens = front ++ back ∧
      DerivesEach front values ∧ Opened frames back

/-- The reply to a step where these tokens are to come, the tokens that it takes, and what
is still to come after it. -/
inductive Serves : Token.Supply → Step → Reply → List Token → Token.Supply → Prop where
  | peek {token rest error?} :
      Serves ⟨token :: rest, error?⟩ .peek (.token (some token)) [] ⟨token :: rest, error?⟩
  | advance {token rest error?} :
      Serves ⟨token :: rest, error?⟩ .advance (.token (some token)) [token] ⟨rest, error?⟩
  | parse {front rest value error?} : Derives front value →
      Serves ⟨front ++ rest, error?⟩ .parse (.expression (some value)) front ⟨rest, error?⟩
  | parseAll {tokens values} : DerivesEach tokens values →
      Serves ⟨tokens, none⟩ .parseAll (.expressions values) tokens ⟨[], none⟩
  /-- There is nothing to come. -/
  | ended {step} : step ≠ .parseAll → Serves ⟨[], none⟩ step step.atEnd [] ⟨[], none⟩
  /-- A token is refused where these frames are open. -/
  | refused {frames front token rest error? error} : Opened frames front →
      Parser.step frames token = .error error →
      Serves ⟨front ++ token :: rest, error?⟩ .parse (.error error) (front ++ [token])
        ⟨rest, error?⟩
  /-- A token is refused after some expressions. -/
  | refusedLater {done values frames front token rest error? error} : DerivesEach done values →
      Opened frames front → Parser.step frames token = .error error →
      Serves ⟨done ++ (front ++ token :: rest), error?⟩ .parseAll (.error error)
        (done ++ (front ++ [token])) ⟨rest, error?⟩
  /-- The tokens end while these frames are open. -/
  | unfinished {frames tokens error} : Opened frames tokens → finish frames = some error →
      Serves ⟨tokens, none⟩ .parse (.error (.malformed error)) tokens ⟨[], none⟩
  | unfinishedLater {done values frames tokens error} : DerivesEach done values →
      Opened frames tokens → finish frames = some error →
      Serves ⟨done ++ tokens, none⟩ .parseAll (.error (.malformed error)) (done ++ tokens)
        ⟨[], none⟩
  /-- The step comes to the error in which the tokens end. -/
  | cut {step tokens error} : step.RunsOut tokens →
      Serves ⟨tokens, some error⟩ step (.error (.malformed error)) tokens ⟨[], none⟩

section
variable {supply left : Token.Supply} {step : Step} {reply : Reply} {front : List Token}

theorem Serves.tokens_eq (h : Serves supply step reply front left) :
    supply.tokens = front ++ left.tokens := by
  cases h <;> simp

theorem Serves.peek_taken (h : Serves supply .peek reply front left) : front = [] := by
  cases h with
  | peek | ended => rfl
  | cut hout => exact hout

/-- Looking leaves what is to come, unless it comes to an error. -/
theorem Serves.peek_leaves (h : Serves supply .peek reply front left) :
    left = supply ∨ ∃ error, reply = .error error := by
  cases h with
  | peek | ended => exact .inl rfl
  | cut => exact .inr ⟨_, rfl⟩

theorem Serves.advance_of_peek (h : Serves supply .peek reply front left) :
    ∃ front left, Serves supply .advance reply front left := by
  cases h with
  | peek => exact ⟨_, _, .advance⟩
  | ended => exact ⟨_, _, .ended nofun⟩
  | cut hout => exact ⟨_, _, .cut hout⟩

theorem Serves.parse_nothing (h : Serves supply .parse reply [] left) : supply.tokens = [] := by
  generalize hfront : ([] : List Token) = front at h
  cases h with
  | parse hderives => exact (hderives.ne_nil hfront.symm).elim
  | refused => simp at hfront
  | ended => rfl
  | unfinished | cut =>
    cases hfront
    rfl

/-- The error stays in which the tokens end, or the step has reported it. -/
theorem Serves.error?_eq (h : Serves supply step reply front left) :
    left.error? = supply.error? ∨
      ∃ error, supply.error? = some error ∧ step.RunsOut supply.tokens ∧
        reply = .error (.malformed error) ∧ left = ⟨[], none⟩ := by
  cases h with
  | cut hout => exact .inr ⟨_, rfl, hout, rfl, rfl⟩
  | peek | advance | parse | parseAll | ended | refused | refusedLater | unfinished
  | unfinishedLater => exact .inl rfl

end

/-! ## Steps are served as described -/

/-- The stream of this supply, whose next token has been looked at if the step is to look. -/
def Step.leaves : Step → Token.Supply → TokenStream
  | .peek, ⟨token :: rest, error?⟩ => ⟨[token], ⟨rest, error?⟩⟩
  | _, supply => ofSupply supply

@[simp] theorem remaining_leaves (step : Step) (supply : Token.Supply) :
    (step.leaves supply).remaining = supply := by
  obtain ⟨tokens, error?⟩ := supply
  cases step with
  | peek => cases tokens <;> rfl
  | advance | parse | parseAll => rfl

/-- The buffer holds the next token if the step was to look, and nothing otherwise. -/
theorem buffer_leaves (step : Step) (supply : Token.Supply) :
    (step.leaves supply).buffer = [] ∨
      step = .peek ∧ (step.leaves supply).buffer = supply.tokens.take 1 := by
  obtain ⟨tokens, error?⟩ := supply
  cases step with
  | peek =>
    cases tokens with
    | nil => exact .inl rfl
    | cons => exact .inr ⟨rfl, rfl⟩
  | advance | parse | parseAll => exact .inl rfl

theorem oneAhead_leaves (step : Step) (supply : Token.Supply) : (step.leaves supply).OneAhead := by
  rcases buffer_leaves step supply with hbuffer | ⟨-, hbuffer⟩ <;> rw [OneAhead, hbuffer]
  · exact Nat.zero_le 1
  · exact List.length_take_le 1 _

section
variable {stream : TokenStream} (hahead : stream.OneAhead) {step : Step} {reply : Reply}
  {front : List Token} {left : Token.Supply}
include hahead

theorem serve_parse {answer : Parsed}
    (h : Accounts stream.remaining.error? stream.remaining.tokens answer) :
    stream.serve .parse = (TokenStream.reply answer).map (.pass .expression id) id := by
  rw [serve, parse_eq_reply hahead, Parser.parse, (parseFrom_eq_iff _).mpr h]

theorem serve_parseAll {back : List Token} {values : List Value} {answer : Parsed}
    {last? : Option ReadError} (htokens : stream.remaining.tokens = front ++ back)
    (heach : DerivesEach front values) (haccounts : Accounts stream.remaining.error? back answer)
    (hcloses : answer.Closes last? left) :
    stream.serve .parseAll =
      (.pass .expressions id (Reading.all ⟨values, last?, left⟩), ofSupply left) := by
  rw [serve, parseAll_eq_reading hahead, Parser.parseAll, htokens,
    parseAllFrom_eq_of_closes _ heach haccounts hcloses]
  rfl

/-- A step is served as described. -/
theorem Serves.serve_eq (h : Serves stream.remaining step reply front left) :
    stream.serve step = (reply, step.leaves left) := by
  have hpeek := peek_eq hahead
  have hadvance := advance_eq hahead
  generalize hsupply : stream.remaining = supply at h hpeek hadvance
  have htokens : stream.remaining.tokens = supply.tokens := congrArg Token.Supply.tokens hsupply
  have herror : stream.remaining.error? = supply.error? := congrArg Token.Supply.error? hsupply
  cases h with
  | peek =>
    rw [serve, hpeek]
    rfl
  | advance =>
    rw [serve, hadvance]
    rfl
  | parse hderives =>
    exact serve_parse hahead (by rw [htokens, herror]; exact .value hderives)
  | @parseAll tokens values heach =>
    have haccounts : Accounts stream.remaining.error? [] .done := .done herror
    exact serve_parseAll hahead (by rw [htokens, List.append_nil]) heach haccounts .done
  | ended hstep =>
    cases step with
    | peek =>
      rw [serve, hpeek]
      rfl
    | advance =>
      rw [serve, hadvance]
      rfl
    | parse => exact serve_parse hahead (by rw [htokens]; exact .done herror)
    | parseAll => exact (hstep rfl).elim
  | refused hopened hstep =>
    exact serve_parse hahead (by rw [htokens, herror]; exact .refused hopened hstep)
  | refusedLater heach hopened hstep =>
    exact serve_parseAll hahead htokens heach (by rw [herror]; exact .refused hopened hstep) .failed
  | unfinished hopened hend =>
    exact serve_parse hahead (by rw [htokens, herror]; exact .ended hopened hend)
  | unfinishedLater heach hopened hend =>
    exact serve_parseAll hahead htokens heach (by rw [herror]; exact .ended hopened hend) .failed
  | cut hout =>
    cases step with
    | peek =>
      cases hout
      rw [serve, hpeek]
      rfl
    | advance =>
      cases hout
      rw [serve, hadvance]
      rfl
    | parse =>
      obtain ⟨frames, hopened⟩ := hout
      exact serve_parse hahead (by rw [htokens, herror]; exact .ended hopened rfl)
    | parseAll =>
      obtain ⟨front, values, back, frames, rfl, heach, hopened⟩ := hout
      exact serve_parseAll hahead htokens heach (by rw [herror]; exact .ended hopened rfl) .failed

end

/-- Every step is served, whatever is to come. -/
theorem exists_serves (supply : Token.Supply) (step : Step) :
    ∃ reply front left, Serves supply step reply front left := by
  obtain ⟨tokens, error?⟩ := supply
  have hlook (hstep : step = .peek ∨ step = .advance) :
      ∃ reply front left, Serves ⟨tokens, error?⟩ step reply front left := by
    cases tokens with
    | nil =>
      cases error? with
      | none => exact ⟨_, _, _, .ended (by rcases hstep with rfl | rfl <;> nofun)⟩
      | some error => exact ⟨_, _, _, .cut (by rcases hstep with rfl | rfl <;> rfl)⟩
    | cons token rest =>
      rcases hstep with rfl | rfl
      · exact ⟨_, _, _, .peek⟩
      · exact ⟨_, _, _, .advance⟩
  cases step with
  | peek => exact hlook (.inl rfl)
  | advance => exact hlook (.inr rfl)
  | parse =>
    have haccounts := accounts_parseFrom error? .nil tokens
    generalize parseFrom error? [] tokens = answer at haccounts
    rw [List.nil_append] at haccounts
    cases haccounts with
    | value hderives => exact ⟨_, _, _, .parse hderives⟩
    | done herror =>
      subst herror
      exact ⟨_, _, _, .ended nofun⟩
    | refused hopened hstep => exact ⟨_, _, _, .refused hopened hstep⟩
    | @ended frames _ _ hopened hend =>
      cases error? with
      | none => exact ⟨_, _, _, .unfinished hopened hend⟩
      | some cut => exact ⟨_, _, _, .cut ⟨frames, hopened⟩⟩
  | parseAll =>
    obtain ⟨front, back, answer, rfl, heach, haccounts, hcloses⟩ := exists_closes error? tokens
    cases haccounts with
    | value => cases hcloses
    | done herror =>
      subst herror
      exact ⟨_, _, _, .parseAll (by rwa [List.append_nil])⟩
    | refused hopened hstep => exact ⟨_, _, _, .refusedLater heach hopened hstep⟩
    | @ended frames _ _ hopened hend =>
      cases error? with
      | none => exact ⟨_, _, _, .unfinishedLater heach hopened hend⟩
      | some cut => exact ⟨_, _, _, .cut ⟨front, _, back, frames, rfl, heach, hopened⟩⟩

/-! ## Streams that are one token ahead -/

section
variable {stream : TokenStream} (hahead : stream.OneAhead) {step : Step} {reply : Reply}
  {front : List Token} {left : Token.Supply}
include hahead

theorem Serves.taken_eq (h : Serves stream.remaining step reply front left) :
    stream.taken step = front := by
  rw [taken, h.serve_eq hahead, remaining_leaves, h.tokens_eq]
  simp

/-- What the description says is what the stream does. -/
theorem serves_iff :
    Serves stream.remaining step reply front left ↔
      (stream.serve step).1 = reply ∧ stream.taken step = front ∧
        (stream.serve step).2.remaining = left := by
  constructor
  · intro h
    rw [h.serve_eq hahead, remaining_leaves]
    exact ⟨rfl, h.taken_eq hahead, rfl⟩
  · rintro ⟨rfl, rfl, rfl⟩
    obtain ⟨reply, front, left, h⟩ := exists_serves stream.remaining step
    rw [h.taken_eq hahead, h.serve_eq hahead, remaining_leaves]
    exact h

theorem serves_serve (step : Step) :
    Serves stream.remaining step (stream.serve step).1 (stream.taken step)
      (stream.serve step).2.remaining :=
  (serves_iff hahead).mpr ⟨rfl, rfl, rfl⟩

theorem serve_eq_leaves (step : Step) :
    (stream.serve step).2 = step.leaves (stream.serve step).2.remaining := by
  have hserve := (serves_serve hahead step).serve_eq hahead
  exact congrArg Prod.snd hserve

/-- No step looks further ahead than one token. -/
theorem oneAhead_serve (step : Step) : (stream.serve step).2.OneAhead := by
  rw [serve_eq_leaves hahead]
  exact oneAhead_leaves step _

/-- What is in the buffer is the next token, and the last step was to look. -/
theorem buffer_serve (step : Step) :
    (stream.serve step).2.buffer = [] ∨ step = .peek ∧
      (stream.serve step).2.buffer = (stream.serve step).2.remaining.tokens.take 1 := by
  have hleaves := serve_eq_leaves hahead step
  generalize (stream.serve step).2.remaining = left at hleaves ⊢
  rw [hleaves]
  exact buffer_leaves step left

/-- What a step does depends on what is to come, and not on what has been looked at. -/
theorem serve_congr {other : TokenStream} (hother : other.OneAhead)
    (h : stream.remaining = other.remaining) (step : Step) :
    stream.serve step = other.serve step := by
  obtain ⟨reply, front, left, hserves⟩ := exists_serves stream.remaining step
  rw [hserves.serve_eq hahead]
  rw [h] at hserves
  rw [hserves.serve_eq hother]

/-- At its end, a stream stays there. -/
theorem serve_ended (h : stream.remaining = ⟨[], none⟩) (step : Step) :
    (stream.serve step).1 = step.atEnd ∧ stream.taken step = [] ∧
      (stream.serve step).2.remaining = ⟨[], none⟩ := by
  rw [← serves_iff hahead, h]
  cases step with
  | peek | advance | parse => exact .ended nofun
  | parseAll => exact .parseAll .nil

end

/-! ## Runs -/

section
variable {stream : TokenStream} (hahead : stream.OneAhead)
include hahead

theorem oneAhead_after (steps : List Step) : (stream.after steps).OneAhead := by
  induction steps generalizing stream with
  | nil => exact hahead
  | cons step steps ih => exact ih (oneAhead_serve hahead step)

theorem replies_ended (h : stream.remaining = ⟨[], none⟩) (steps : List Step) :
    stream.replies steps = steps.map Step.atEnd ∧ (stream.after steps).remaining = ⟨[], none⟩ := by
  induction steps generalizing stream with
  | nil => exact ⟨rfl, h⟩
  | cons step steps ih =>
    obtain ⟨hreply, -, hleft⟩ := serve_ended hahead h step
    obtain ⟨hreplies, hafter⟩ := ih (oneAhead_serve hahead step) hleft
    exact ⟨by rw [replies, hreply, hreplies, List.map_cons], hafter⟩

/-- The tokens that steps take come first. -/
theorem takenEach_append_remaining (steps : List Step) :
    stream.remaining.tokens = stream.takenEach steps ++ (stream.after steps).remaining.tokens := by
  induction steps generalizing stream with
  | nil => rfl
  | cons step steps ih =>
    rw [takenEach, List.append_assoc, after_cons, ← ih (oneAhead_serve hahead step)]
    exact (serves_serve hahead step).tokens_eq

end

/-- None of the steps comes to the end of the tokens. -/
def NeverRunsOut (stream : TokenStream) (steps : List Step) : Prop :=
  ∀ before step later, steps = before ++ step :: later →
    ¬step.RunsOut (stream.after before).remaining.tokens

theorem NeverRunsOut.cons {stream : TokenStream} {step : Step} {steps : List Step}
    (hstep : ¬step.RunsOut stream.remaining.tokens) (h : (stream.serve step).2.NeverRunsOut steps) :
    stream.NeverRunsOut (step :: steps) := by
  intro before other later heq
  cases before with
  | nil =>
    cases heq
    exact hstep
  | cons first before =>
    cases heq
    exact h before other later rfl

/-- The error in which the tokens end is still to come, or the first step that has come to
it has reported it. -/
theorem error?_after {stream : TokenStream} (hahead : stream.OneAhead) {error : SyntaxError}
    (h : stream.remaining.error? = some error) (steps : List Step) :
    stream.NeverRunsOut steps ∧ (stream.after steps).remaining.error? = some error ∨
      ∃ before step later, steps = before ++ step :: later ∧ stream.NeverRunsOut before ∧
        (stream.after before).remaining.error? = some error ∧
        step.RunsOut (stream.after before).remaining.tokens ∧
        ((stream.after before).serve step).1 = .error (.malformed error) ∧
        ((stream.after before).serve step).2.remaining = ⟨[], none⟩ := by
  induction steps generalizing stream with
  | nil => exact .inl ⟨fun _ _ _ heq => by simp at heq, h⟩
  | cons step steps ih =>
    by_cases hout : step.RunsOut stream.remaining.tokens
    · have hserves : Serves stream.remaining step (.error (.malformed error))
          stream.remaining.tokens ⟨[], none⟩ := by
        have hcut := @Serves.cut step stream.remaining.tokens error hout
        rwa [← h] at hcut
      obtain ⟨hreply, -, hleft⟩ := (serves_iff hahead).mp hserves
      exact .inr ⟨[], step, steps, rfl, fun _ _ _ heq => by simp at heq, h, hout, hreply, hleft⟩
    · have hleft : (stream.serve step).2.remaining.error? = some error := by
        rcases (serves_serve hahead step).error?_eq with hsame | ⟨_, _, hout', _⟩
        · rw [hsame, h]
        · exact (hout hout').elim
      rcases ih (oneAhead_serve hahead step) hleft with ⟨hwithin, hafter⟩ |
        ⟨before, other, later, rfl, hwithin, hrest⟩
      · exact .inl ⟨.cons hout hwithin, hafter⟩
      · exact .inr ⟨step :: before, other, later, rfl, .cons hout hwithin, hrest⟩

theorem buffer_after (supply : Token.Supply) (steps : List Step) :
    ((ofSupply supply).after steps).buffer = [] ∨
      ((ofSupply supply).after steps).buffer =
          ((ofSupply supply).after steps).remaining.tokens.take 1 ∧
        ∃ earlier, steps = earlier ++ [.peek] := by
  rcases List.eq_nil_or_concat steps with rfl | ⟨earlier, last, rfl⟩
  · exact .inl rfl
  · rw [List.concat_eq_append, after_append, after_cons, after_nil]
    have hahead := oneAhead_after (oneAhead_ofSupply supply) earlier
    rcases buffer_serve hahead last with hnone | ⟨rfl, hnext⟩
    · exact .inl hnone
    · exact .inr ⟨hnext, earlier, rfl⟩

/-- After any steps, what they have taken of the tokens comes first among these, and the rest
is to come. The buffer holds at most one token, which is the next one, and only after a step
that looked. The next step is served as described:
looking takes nothing and tells what will be taken; an expression is read from one token at
least, if there is one; and where a token is refused, the one after it is next. The error in
which the tokens end is reported by the first step that comes to it, and after that the
stream is at its end. -/
theorem tokens_delivered_once (supply : Token.Supply) (steps : List Step) :
    let source := ofSupply supply
    let stream := source.after steps
    supply.tokens = source.takenEach steps ++ stream.remaining.tokens ∧
    (stream.buffer.length ≤ 1 ∧
      (stream.buffer = [] ∨ stream.buffer = stream.remaining.tokens.take 1 ∧
        ∃ earlier, steps = earlier ++ [.peek])) ∧
    (∀ step reply front left, Serves stream.remaining step reply front left ↔
      (stream.serve step).1 = reply ∧ stream.taken step = front ∧
        (stream.serve step).2.remaining = left) ∧
    (stream.taken .peek = [] ∧ (stream.serve .peek).1 = (stream.serve .advance).1 ∧
      ((∀ error, (stream.serve .peek).1 ≠ .error error) →
        ∀ step, (stream.serve .peek).2.serve step = stream.serve step)) ∧
    (stream.taken .parse = [] → stream.remaining.tokens = []) ∧
    (∀ frames front token rest error, stream.remaining.tokens = front ++ token :: rest →
      Opened frames front → Parser.step frames token = .error error →
      token.AtFault error ∧ stream.taken .parse = front ++ [token] ∧
        stream.serve .parse = (.error error, ofSupply ⟨rest, stream.remaining.error?⟩)) ∧
    ∀ error, supply.error? = some error →
      (source.NeverRunsOut steps ∧ stream.remaining.error? = some error) ∨
      ∃ before step later, steps = before ++ step :: later ∧ source.NeverRunsOut before ∧
        step.RunsOut (source.after before).remaining.tokens ∧
        source.replies steps =
          source.replies before ++ .error (.malformed error) :: later.map Step.atEnd ∧
        stream.remaining = ⟨[], none⟩ := by
  intro source stream
  have hahead : stream.OneAhead := oneAhead_after (oneAhead_ofSupply supply) steps
  refine ⟨takenEach_append_remaining (oneAhead_ofSupply supply) steps,
    ⟨hahead, buffer_after supply steps⟩, fun _ _ _ _ => serves_iff hahead, ⟨?_, ?_, ?_⟩, ?_, ?_, ?_⟩
  · exact (serves_serve hahead .peek).peek_taken
  · obtain ⟨front, left, hadvance⟩ := (serves_serve hahead .peek).advance_of_peek
    exact ((serves_iff hahead).mp hadvance).1.symm
  · intro hreply step
    rcases (serves_serve hahead .peek).peek_leaves with hleft | ⟨error, herror⟩
    · exact serve_congr (oneAhead_serve hahead .peek) hahead hleft step
    · exact (hreply error herror).elim
  · intro htaken
    have hserves := serves_serve hahead .parse
    rw [htaken] at hserves
    exact hserves.parse_nothing
  · intro frames front token rest error htokens hopened hstep
    have hserves : Serves stream.remaining .parse (.error error) (front ++ [token])
        ⟨rest, stream.remaining.error?⟩ := by
      have hrefused := @Serves.refused _ _ token rest stream.remaining.error? _ hopened hstep
      rwa [← htokens] at hrefused
    exact ⟨atFault_of_step hstep, hserves.taken_eq hahead, hserves.serve_eq hahead⟩
  · intro error herror
    rcases error?_after (oneAhead_ofSupply supply) herror steps with hwithin |
      ⟨before, step, later, rfl, hwithin, _, hout, hreply, hleft⟩
    · exact .inl hwithin
    · have hbefore := oneAhead_after (oneAhead_ofSupply supply) before
      obtain ⟨hreplies, hafter⟩ := replies_ended (oneAhead_serve hbefore step) hleft later
      refine .inr ⟨before, step, later, rfl, hwithin, hout, ?_, ?_⟩
      · rw [replies_append, replies, hreply, hreplies]
      · rw [← hafter]
        exact congrArg remaining (after_append source before (step :: later))

/-- After the parenthesis that closes nothing, the next token is the one after it, although
the stream has been looked at before. -/
theorem tokens_delivered_once_sample :
    let stream := (ofSource "a) b").after [.parse, .peek]
    Parser.step [] ⟨.closeParen, ")", 1⟩ = .error (.malformed (.unexpectedClose 1)) ∧
      stream.serve .parse =
        (.error (.malformed (.unexpectedClose 1)), ofTokens [⟨.atom, "b", 3⟩]) := by
  intro stream
  have hstep : Parser.step [] ⟨.closeParen, ")", 1⟩ =
    .error (.malformed (.unexpectedClose 1)) := rfl
  have hparse : (ofSource "a) b").serve .parse =
      (.expression (some (.sym "a")), ofTokens [⟨.closeParen, ")", 1⟩, ⟨.atom, "b", 3⟩]) := by
    rw [serve, ofSource, parse_eq_reply (oneAhead_ofSupply _)]
    rfl
  have hremaining : stream.remaining = ⟨[⟨.closeParen, ")", 1⟩, ⟨.atom, "b", 3⟩], none⟩ := by
    unfold stream
    rw [after_cons, hparse]
    rfl
  obtain ⟨-, -, -, -, -, hrefused, -⟩ := tokens_delivered_once (Token.lex "a) b") [.parse, .peek]
  have hserve : stream.serve .parse = (.error (.malformed (.unexpectedClose 1)),
      ofSupply ⟨[⟨.atom, "b", 3⟩], stream.remaining.error?⟩) :=
    (hrefused [] [] _ _ _ (congrArg Token.Supply.tokens hremaining) .nil hstep).2.2
  rw [hremaining] at hserve
  exact ⟨hstep, hserve⟩

end TokenStream
end Sexpr
