import Sexpr.Parser
import Sexpr.Token.Lexer

/-!
# Token streams

A stream hands out its tokens one at a time. A token that has been looked at waits in
a buffer until it is taken. The tokens of a faulty source end in the error, which is
reported once, by the first operation that gets there; after it the stream is at its end.
-/
namespace Sexpr

/-- Take the next token of a supply; none at the end. -/
def Token.Supply.next :
    Token.Supply → Except SyntaxError (Option Token) × Token.Supply
  | ⟨token :: rest, error?⟩ => (.ok (some token), ⟨rest, error?⟩)
  | ⟨[], some error⟩ => (.error error, ⟨[], none⟩)
  | ⟨[], none⟩ => (.ok none, ⟨[], none⟩)

theorem Token.Supply.of_next_eq_some {supply rest : Token.Supply} {token : Token}
    (h : supply.next = (.ok (some token), rest)) :
    supply = ⟨token :: rest.tokens, rest.error?⟩ := by
  unfold next at h
  split at h <;> cases h
  rfl

/-- Tokens that are still to come. -/
structure TokenStream where
  /-- The tokens that have been looked at and not yet taken. -/
  buffer : List Token
  /-- The tokens after them, and the error in which they end. -/
  pending : Token.Supply
  deriving Repr

namespace TokenStream

/-! ## Making streams -/

/-- The stream of these tokens. -/
def ofSupply (supply : Token.Supply) : TokenStream := ⟨[], supply⟩

/-- The stream of the tokens of a source. -/
def ofSource (source : String) : TokenStream := ofSupply (Token.lex source)

/-- The stream of the given tokens. -/
def ofTokens (tokens : List Token) : TokenStream := ofSupply ⟨tokens, none⟩

/-- Everything still to come. -/
def remaining (stream : TokenStream) : Token.Supply :=
  { stream.pending with tokens := stream.buffer ++ stream.pending.tokens }

/-- How many tokens are still to come. -/
def size (stream : TokenStream) : Nat := stream.remaining.tokens.length

/-! ## Taking tokens -/

/-- Look at the next token without taking it; none at the end. -/
def peek (stream : TokenStream) : Except SyntaxError (Option Token) × TokenStream :=
  match stream.buffer with
  | token :: _ => (.ok (some token), stream)
  | [] =>
    match stream.pending.next with
    | (.ok (some token), pending) => (.ok (some token), ⟨[token], pending⟩)
    | (answer, pending) => (answer, ⟨[], pending⟩)

/-- Take the next token; none at the end. -/
def advance (stream : TokenStream) : Except SyntaxError (Option Token) × TokenStream :=
  match stream.buffer with
  | token :: buffer => (.ok (some token), { stream with buffer })
  | [] =>
    let (answer, pending) := stream.pending.next
    (answer, ⟨[], pending⟩)

section
variable {stream after : TokenStream} {token : Token}

theorem size_of_peek (h : stream.peek = (.ok (some token), after)) : after.size = stream.size := by
  obtain ⟨buffer, pending⟩ := stream
  cases buffer with
  | cons => cases h; rfl
  | nil =>
    simp only [peek] at h
    split at h
    · rename_i hnext
      cases h
      rw [Token.Supply.of_next_eq_some hnext]
      rfl
    · rename_i hother _
      cases h
      exact (hother _ rfl).elim

theorem size_lt_of_advance (h : stream.advance = (.ok (some token), after)) :
    after.size < stream.size := by
  obtain ⟨buffer, pending⟩ := stream
  cases buffer with
  | cons => cases h; exact Nat.lt_succ_self _
  | nil =>
    rcases hnext : pending.next with ⟨answer, rest⟩
    simp only [advance, hnext] at h
    cases h
    rw [Token.Supply.of_next_eq_some hnext]
    exact Nat.lt_succ_self _

end

/-! ## Parsing -/

/-- Parse on where these frames are open, up to the end of the expression. -/
def parseWithin (stream : TokenStream) (frames : List Parser.Frame) :
    Except ReadError (Option Value) × TokenStream :=
  match _h : stream.advance with
  | (.error error, after) => (.error (.malformed error), after)
  | (.ok none, after) =>
    match Parser.finish frames with
    | none => (.ok none, after)
    | some error => (.error (.malformed error), after)
  | (.ok (some token), after) =>
    match Parser.step frames token with
    | .error error => (.error error, after)
    | .ok (.complete value) => (.ok (some value), after)
    | .ok (.pending frames) => after.parseWithin frames
termination_by stream.size
decreasing_by exact size_lt_of_advance _h

/-- Parse the next expression; none at the end. -/
def parse (stream : TokenStream) : Except ReadError (Option Value) × TokenStream :=
  stream.parseWithin []

theorem size_lt_of_parseWithin {stream after : TokenStream} {frames : List Parser.Frame}
    {value : Value} (h : stream.parseWithin frames = (.ok (some value), after)) :
    after.size < stream.size := by
  fun_induction parseWithin stream frames with
  | case1 | case2 | case3 | case4 => cases h
  | case5 stream frames token next hadvance value hstep =>
    cases h
    exact size_lt_of_advance hadvance
  | case6 stream frames token next hadvance frames' hstep ih =>
    exact Nat.lt_trans (ih h) (size_lt_of_advance hadvance)

theorem size_lt_of_parse {stream after : TokenStream} {value : Value}
    (h : stream.parse = (.ok (some value), after)) : after.size < stream.size :=
  size_lt_of_parseWithin h

/-- Parse all expressions to the end. -/
def parseAll (stream : TokenStream) : Except ReadError (List Value) × TokenStream :=
  match _hpeek : stream.peek with
  | (.error error, after) => (.error (.malformed error), after)
  | (.ok none, after) => (.ok [], after)
  | (.ok (some _), looked) =>
    match _hparse : looked.parse with
    | (.error error, after) => (.error error, after)
    -- Not where there is a token: an expression that has begun does not end in nothing.
    | (.ok none, after) => (.ok [], after)
    | (.ok (some value), after) =>
      let (values, last) := after.parseAll
      ((value :: ·) <$> values, last)
termination_by stream.size
decreasing_by exact size_of_peek _hpeek ▸ size_lt_of_parse _hparse

end TokenStream
end Sexpr
