import Sexpr.Source

/-!
# What is still to come

A stream goes from token to token. What it answers depends only on the tokens that are
still to come, and these are a list, perhaps with an error at its end. Main statements: a
stream that is at most one token ahead parses what the list holds and leaves what comes
after it, and a source is read as what the list of its tokens holds.
-/
namespace Sexpr

/-! ## Lists of tokens -/

namespace Parser

/-- What ends the tokens: the error that cut them short, or else the end of the
text, which is an error if frames are open. -/
def ending (error? : Option SyntaxError) (frames : List Frame) : Option SyntaxError :=
  error? <|> finish frames

/-- The outcome of parsing one expression. -/
inductive Parsed where
  /-- An expression, and what comes after it. -/
  | value (value : Value) (rest : Token.Supply)
  /-- No expression begins before the end. -/
  | done
  /-- An error, and what comes after the token at fault. -/
  | failed (error : ReadError) (rest : Token.Supply)
  deriving Repr

/-- Parse one expression from tokens that end in `error?`. -/
def parseFrom (error? : Option SyntaxError) (frames : List Frame) : List Token → Parsed
  | [] =>
    match ending error? frames with
    | none => .done
    | some error => .failed (.malformed error) ⟨[], none⟩
  | token :: rest =>
    match step frames token with
    | .error error => .failed error ⟨rest, error?⟩
    | .ok (.complete value) => .value value ⟨rest, error?⟩
    | .ok (.pending frames) => parseFrom error? frames rest

/-- Parse one expression. -/
def parse (supply : Token.Supply) : Parsed :=
  parseFrom supply.error? [] supply.tokens

/-- The expressions that tokens hold up to their end or the first error. -/
structure Reading where
  values : List Value
  error? : Option ReadError
  /-- What comes after the token at fault. -/
  rest : Token.Supply
  deriving Repr

/-- Parse expressions from tokens that end in `error?` for as long as there are any. -/
def parseAllFrom (error? : Option SyntaxError) (frames : List Frame) : List Token → Reading
  | [] => ⟨[], (ending error? frames).map .malformed, ⟨[], none⟩⟩
  | token :: rest =>
    match step frames token with
    | .error error => ⟨[], some error, ⟨rest, error?⟩⟩
    | .ok (.complete value) =>
      let reading := parseAllFrom error? [] rest
      { reading with values := value :: reading.values }
    | .ok (.pending frames) => parseAllFrom error? frames rest

/-- Parse all expressions up to the end or the first error. -/
def parseAll (supply : Token.Supply) : Reading :=
  parseAllFrom supply.error? [] supply.tokens

/-- The expressions, unless an error came after them. -/
def Reading.all (reading : Reading) : Except ReadError (List Value) :=
  match reading.error? with
  | none => .ok reading.values
  | some error => .error error

theorem Reading.all_eq_ok_iff {reading : Reading} {values : List Value} :
    reading.all = .ok values ↔ reading.error? = none ∧ reading.values = values := by
  unfold Reading.all
  cases reading.error? <;> simp

/-- An expression takes tokens away, and the error in which they end stays. -/
theorem of_parseFrom_eq_value {error? : Option SyntaxError} {frames : List Frame}
    {tokens : List Token} {value : Value} {rest : Token.Supply}
    (h : parseFrom error? frames tokens = .value value rest) :
    rest.tokens.length < tokens.length ∧ rest.error? = error? := by
  induction tokens generalizing frames with
  | nil =>
    rw [parseFrom] at h
    split at h <;> cases h
  | cons token others ih =>
    rw [parseFrom] at h
    split at h
    · cases h
    · cases h
      exact ⟨Nat.lt_succ_self _, rfl⟩
    · obtain ⟨hshorter, herror⟩ := ih h
      exact ⟨Nat.lt_succ_of_lt hshorter, herror⟩

/-- Reading a whole source is reading one expression after the other. -/
theorem parseAllFrom_eq (error? : Option SyntaxError) (frames : List Frame)
    (tokens : List Token) :
    parseAllFrom error? frames tokens =
      match parseFrom error? frames tokens with
      | .value value rest =>
        let reading := parseAllFrom error? [] rest.tokens
        { reading with values := value :: reading.values }
      | .done => ⟨[], none, ⟨[], none⟩⟩
      | .failed error rest => ⟨[], some error, rest⟩ := by
  induction tokens generalizing frames with
  | nil =>
    rw [parseAllFrom, parseFrom]
    cases ending error? frames <;> rfl
  | cons token rest ih =>
    rw [parseAllFrom, parseFrom]
    cases hstep : step frames token with
    | error error => rfl
    | ok progress =>
      cases progress with
      | complete value => rfl
      | pending frames => exact ih frames

end Parser

/-- The expressions of a source up to its end or the first error. -/
def Source.reading (source : String) : Parser.Reading :=
  Parser.parseAll (Token.lex source)

/-! ## Streams -/

namespace TokenStream

/-- At most one token has been looked at. -/
def OneAhead (stream : TokenStream) : Prop := stream.buffer.length ≤ 1

theorem oneAhead_ofSupply (supply : Token.Supply) : (ofSupply supply).OneAhead :=
  Nat.zero_le 1

/-- The stream has looked at nothing, or at one token. -/
theorem OneAhead.eq_or {stream : TokenStream} (h : stream.OneAhead) :
    stream = ofSupply stream.pending ∨ ∃ token, stream = ⟨[token], stream.pending⟩ := by
  obtain ⟨_ | ⟨token, _ | ⟨second, buffer⟩⟩, pending⟩ := stream
  · exact .inl rfl
  · exact .inr ⟨token, rfl⟩
  · simp [OneAhead] at h

section
variable {stream : TokenStream} (hahead : stream.OneAhead)
include hahead

theorem advance_eq : stream.advance = (ofSupply stream.remaining).advance := by
  rcases hahead.eq_or with h | ⟨token, h⟩ <;> rw [h] <;> rfl

theorem peek_eq : stream.peek = (ofSupply stream.remaining).peek := by
  rcases hahead.eq_or with h | ⟨token, h⟩ <;> rw [h] <;> rfl

theorem parse_eq : stream.parse = (ofSupply stream.remaining).parse := by
  rcases hahead.eq_or with h | ⟨token, h⟩ <;> rw [h]
  · rfl
  · rw [parse, parse, parseWithin, parseWithin]
    rfl

theorem parseAll_eq : stream.parseAll = (ofSupply stream.remaining).parseAll := by
  rcases hahead.eq_or with h | ⟨token, h⟩ <;> rw [h]
  · rfl
  · rw [parseAll, parseAll]
    rfl

end

/-- How a stream passes on the answer of the parser, and what it becomes. -/
def reply : Parser.Parsed → Except ReadError (Option Value) × TokenStream
  | .value value rest => (.ok (some value), ofSupply rest)
  | .done => (.ok none, ofTokens [])
  | .failed error rest => (.error error, ofSupply rest)

theorem parseWithin_cons (error? : Option SyntaxError) (frames : List Parser.Frame)
    (token : Token) (rest : List Token) :
    (ofSupply ⟨token :: rest, error?⟩).parseWithin frames =
      match Parser.step frames token with
      | .error error => (.error error, ofSupply ⟨rest, error?⟩)
      | .ok (.complete value) => (.ok (some value), ofSupply ⟨rest, error?⟩)
      | .ok (.pending frames) => (ofSupply ⟨rest, error?⟩).parseWithin frames := by
  rw [parseWithin]
  rfl

theorem parseWithin_eq_reply (error? : Option SyntaxError) (frames : List Parser.Frame)
    (tokens : List Token) :
    (ofSupply ⟨tokens, error?⟩).parseWithin frames =
      reply (Parser.parseFrom error? frames tokens) := by
  induction tokens generalizing frames with
  | nil =>
    rw [parseWithin, Parser.parseFrom]
    cases error? with
    | some error => rfl
    | none =>
      have hend : Parser.ending none frames = Parser.finish frames := rfl
      rw [hend]
      cases Parser.finish frames <;> rfl
  | cons token rest ih =>
    rw [parseWithin_cons, Parser.parseFrom]
    cases Parser.step frames token with
    | error error => rfl
    | ok progress =>
      cases progress with
      | complete value => rfl
      | pending frames => exact ih frames

/-- A stream is asked for an expression: it answers as the parser does for the list of what is
still to come. -/
theorem parse_eq_reply {stream : TokenStream} (hahead : stream.OneAhead) :
    stream.parse = reply (Parser.parse stream.remaining) :=
  (parse_eq hahead).trans (parseWithin_eq_reply _ _ _)

theorem parseAll_cons (error? : Option SyntaxError) (token : Token) (rest : List Token) :
    (ofSupply ⟨token :: rest, error?⟩).parseAll =
      match reply (Parser.parseFrom error? [] (token :: rest)) with
      | (.error error, after) => (.error error, after)
      | (.ok none, after) => (.ok [], after)
      | (.ok (some value), after) => ((value :: ·) <$> after.parseAll.1, after.parseAll.2) := by
  have hpeek : (ofSupply ⟨token :: rest, error?⟩).peek =
      (.ok (some token), ⟨[token], ⟨rest, error?⟩⟩) := rfl
  have hreply : TokenStream.parse ⟨[token], ⟨rest, error?⟩⟩ =
      reply (Parser.parseFrom error? [] (token :: rest)) := parse_eq_reply (Nat.le_refl 1)
  rw [← hreply, parseAll]
  split <;> rename_i hlook <;> cases hpeek.symm.trans hlook
  split <;> rename_i hparse <;> rw [hparse]

theorem parseAll_ofSupply (supply : Token.Supply) :
    (ofSupply supply).parseAll =
      ((Parser.parseAll supply).all, ofSupply (Parser.parseAll supply).rest) := by
  induction hlength : supply.tokens.length using Nat.strongRecOn generalizing supply with
  | ind length ih =>
    obtain ⟨_ | ⟨token, rest⟩, error?⟩ := supply
    · rw [parseAll]
      cases error? <;> rfl
    · rw [parseAll_cons, Parser.parseAll, Parser.parseAllFrom_eq]
      cases hanswer : Parser.parseFrom error? [] (token :: rest) with
      | done | failed => rfl
      | value value left =>
        -- The other expressions are those of what is left, which has fewer tokens.
        obtain ⟨hshorter, herror⟩ := Parser.of_parseFrom_eq_value hanswer
        have hleft := ih _ (hlength ▸ hshorter) left rfl
        rw [Parser.parseAll, herror] at hleft
        simp only [reply, hleft, Parser.Reading.all]
        cases (Parser.parseAllFrom error? [] left.tokens).error? <;> rfl

theorem parseAll_eq_reading {stream : TokenStream} (hahead : stream.OneAhead) :
    stream.parseAll =
      ((Parser.parseAll stream.remaining).all, ofSupply (Parser.parseAll stream.remaining).rest) :=
  (parseAll_eq hahead).trans (parseAll_ofSupply _)

end TokenStream

/-- A source is read as what the list of its tokens holds, unless there is an error. -/
theorem Source.readAll_eq (source : String) : readAll source = (reading source).all :=
  congrArg Prod.fst (TokenStream.parseAll_ofSupply (Token.lex source))

theorem Source.readAll_eq_ok_iff {source : String} {values : List Value} :
    readAll source = .ok values ↔
      (reading source).error? = none ∧ (reading source).values = values := by
  rw [readAll_eq, Parser.Reading.all_eq_ok_iff]

/-! ## Expressions one at a time -/

namespace TokenStream

/-- Asked for one expression after the other, the stream has these values, and then it is
at its end or in this error. -/
inductive Yields : TokenStream → List Value → Option ReadError → Prop where
  | done {stream after} : stream.parse = (.ok none, after) → Yields stream [] none
  | failed {stream error after} : stream.parse = (.error error, after) →
      Yields stream [] (some error)
  | next {stream value after values error?} : stream.parse = (.ok (some value), after) →
      Yields after values error? → Yields stream (value :: values) error?

theorem Yields.unique {stream : TokenStream} {values values' : List Value}
    {error? error?' : Option ReadError} (h : stream.Yields values error?)
    (h' : stream.Yields values' error?') : values = values' ∧ error? = error?' := by
  induction h generalizing values' with
  | done hparse | failed hparse => cases h' <;> simp_all
  | next hparse _ ih =>
    cases h' with
    | done hparse' | failed hparse' => simp [hparse] at hparse'
    | next hparse' hrest =>
      rw [hparse] at hparse'
      cases hparse'
      obtain ⟨rfl, rfl⟩ := ih hrest
      exact ⟨rfl, rfl⟩

theorem yields_ofSupply (supply : Token.Supply) :
    (ofSupply supply).Yields (Parser.parseAll supply).values (Parser.parseAll supply).error? := by
  induction hlength : supply.tokens.length using Nat.strongRecOn generalizing supply with
  | ind length ih =>
    have hparse := parse_eq_reply (oneAhead_ofSupply supply)
    change _ = reply (Parser.parse supply) at hparse
    rw [Parser.parse] at hparse
    rw [Parser.parseAll, Parser.parseAllFrom_eq]
    cases hanswer : Parser.parseFrom supply.error? [] supply.tokens with
    | done =>
      rw [hanswer] at hparse
      exact .done hparse
    | failed error rest =>
      rw [hanswer] at hparse
      exact .failed hparse
    | value value rest =>
      rw [hanswer] at hparse
      -- The other values are those of what is left, which has fewer tokens.
      obtain ⟨hshorter, herror⟩ := Parser.of_parseFrom_eq_value hanswer
      rw [← herror]
      exact .next hparse (ih _ (hlength ▸ hshorter) rest rfl)

/-- What a source reads as is what its stream yields. -/
theorem yields_ofSource_iff {source : String} {values : List Value} {error? : Option ReadError} :
    (ofSource source).Yields values error? ↔
      (Source.reading source).values = values ∧ (Source.reading source).error? = error? := by
  have hreading : (ofSource source).Yields (Source.reading source).values
      (Source.reading source).error? := yields_ofSupply _
  constructor
  · exact hreading.unique
  · rintro ⟨rfl, rfl⟩
    exact hreading

theorem yields_of_readAll {source : String} {values : List Value}
    (h : Source.readAll source = .ok values) : (ofSource source).Yields values none := by
  obtain ⟨herror, hvalues⟩ := Source.readAll_eq_ok_iff.mp h
  exact yields_ofSource_iff.mpr ⟨hvalues, herror⟩

end TokenStream

end Sexpr
