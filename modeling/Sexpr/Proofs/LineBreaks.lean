import Sexpr.Proofs.Atoms
import Sexpr.Proofs.Attempts
import Sexpr.Proofs.Grammar
import Sexpr.Proofs.Lexing

/-!
# Texts on lines of their own

A text that can be read ends between expressions, and its last token ends at the latest
where its line does. So what follows on the next line is read as if it stood alone, but
for its place. Main statement: two texts with a line feed between them are read as the
one and then the other, with the place of an error in the second moved by the length of
the first, and they are evaluated as the one and then the other.
-/
namespace Sexpr

/-! ## Moved places -/

/-- The error, `distance` characters further on. -/
def SyntaxError.shift (distance : Nat) : SyntaxError → SyntaxError
  | .unterminatedString position => .unterminatedString (position + distance)
  | .unexpectedClose position => .unexpectedClose (position + distance)
  | .nothingToQuote position => .nothingToQuote (position + distance)
  | .unmatchedOpen position => .unmatchedOpen (position + distance)
  | .unknownEscape char position => .unknownEscape char (position + distance)
  | .unknownToken kind text position => .unknownToken kind text (position + distance)
  | .notOne found => .notOne found

/-- The error, `distance` characters further on if it is at one place. -/
def ReadError.shift (distance : Nat) : ReadError → ReadError
  | .malformed error => .malformed (error.shift distance)
  | .oversizedInteger => .oversizedInteger
  | .danglingEscape => .danglingEscape

namespace Token

def shift (distance : Nat) (token : Token) : Token :=
  { token with position := token.position + distance }

def Supply.shift (distance : Nat) (supply : Supply) : Supply :=
  ⟨supply.tokens.map (Token.shift distance), supply.error?.map (SyntaxError.shift distance)⟩

def Mode.shift (distance : Nat) : Mode → Mode
  | .between => .between
  | .comment => .comment
  | .atom start chars => .atom (start + distance) chars
  | .string start chars => .string (start + distance) chars
  | .escape start chars => .escape (start + distance) chars

/-! ## Lexing further on -/

section
variable (distance position : Nat)

theorem begin_shift (c : Char) :
    Mode.begin (position + distance) c =
      ((Mode.begin position c).1.map (shift distance), (Mode.begin position c).2.shift distance) := by
  unfold Mode.begin
  split
  · rfl
  split
  · rfl
  split
  · rfl
  split
  · rfl
  split
  · rfl
  split <;> rfl

theorem step_shift (mode : Mode) (c : Char) :
    (mode.shift distance).step (position + distance) c =
      ((mode.step position c).1.map (shift distance), (mode.step position c).2.shift distance) := by
  cases mode with
  | between => exact begin_shift distance position c
  | comment =>
    simp only [Mode.shift, Mode.step]
    split <;> rfl
  | atom start chars =>
    simp only [Mode.shift, Mode.step]
    split
    · rfl
    · rw [begin_shift]
      rfl
  | string start chars =>
    simp only [Mode.shift, Mode.step]
    split
    · rfl
    split <;> rfl
  | escape start chars => rfl

/-- A text further on has the same tokens, further on. -/
theorem lexFrom_shift (mode : Mode) (chars : List Char) :
    lexFrom (mode.shift distance) (position + distance) chars =
      (lexFrom mode position chars).shift distance := by
  induction chars generalizing mode position with
  | nil => cases mode <;> rfl
  | cons c rest ih =>
    rw [lexFrom_cons, lexFrom_cons, step_shift, Nat.add_right_comm, ih]
    simp [Supply.prepend, Supply.shift]

end

/-! ## The end of a line -/

/-- The tokens that characters complete and the mode after them do not depend on what
follows. -/
theorem lexFrom_append (mode : Mode) (position : Nat) (chars : List Char) :
    ∃ tokens last, ∀ rest, lexFrom mode position (chars ++ rest) =
      (lexFrom last (position + chars.length) rest).prepend tokens := by
  induction chars generalizing mode position with
  | nil => exact ⟨[], mode, fun rest => rfl⟩
  | cons c chars ih =>
    obtain ⟨tokens, last, hrun⟩ := ih (mode.step position c).2 (position + 1)
    refine ⟨(mode.step position c).1 ++ tokens, last, fun rest => ?_⟩
    rw [List.cons_append, lexFrom_cons, hrun, Supply.prepend_prepend, List.length_cons,
      Nat.add_assoc, Nat.add_comm 1]

/-- A line feed ends what the end of the text would end, unless that is a string. -/
theorem step_newline {mode : Mode} (h : mode.finish.error? = none) (position : Nat) :
    mode.step position '\n' = (mode.finish.tokens, .between) := by
  cases mode with
  | between | comment | atom => rfl
  | string | escape => cases h

/-- The tokens of two lines, of which the first does not end inside a string. -/
theorem lex_newline {first : String} (h : (lex first).error? = none) (second : String) :
    lex (first ++ "\n" ++ second) =
      ((lex second).shift (first.length + 1)).prepend (lex first).tokens := by
  obtain ⟨tokens, last, hrun⟩ := lexFrom_append .between 0 first.toList
  have hfirst : lex first = last.finish.prepend tokens := by
    rw [lex, ← List.append_nil first.toList, hrun]
    rfl
  have hfinish : last.finish.error? = none := by rwa [hfirst] at h
  have htext : (first ++ "\n" ++ second).toList = first.toList ++ '\n' :: second.toList := by simp
  have hsecond := lexFrom_shift (first.length + 1) 0 .between second.toList
  calc
    lex (first ++ "\n" ++ second)
      = (lexFrom last (0 + first.length) ('\n' :: second.toList)).prepend tokens := by
        rw [lex, htext, hrun, String.length_toList]
    _ = ((lexFrom .between (0 + first.length + 1) second.toList).prepend
          last.finish.tokens).prepend tokens := by
        rw [lexFrom_cons, step_newline hfinish]
    _ = ((lex second).shift (first.length + 1)).prepend (lex first).tokens := by
        rw [Supply.prepend_prepend, Nat.add_assoc, hfirst, Supply.tokens_prepend]
        exact congrArg _ hsecond

end Token

/-! ## Parsing further on -/

namespace Parser

def Frame.shift (distance : Nat) : Frame → Frame
  | .quote position => .quote (position + distance)
  | .list position members => .list (position + distance) members

def Progress.shift (distance : Nat) : Progress → Progress
  | .pending frames => .pending (frames.map (Frame.shift distance))
  | .complete value => .complete value

def Reading.shift (distance : Nat) (reading : Reading) : Reading :=
  ⟨reading.values, reading.error?.map (ReadError.shift distance), reading.rest.shift distance⟩

variable (distance : Nat)

theorem place_shift (value : Value) (frames : List Frame) :
    place value (frames.map (Frame.shift distance)) = (place value frames).shift distance := by
  induction frames generalizing value with
  | nil => rfl
  | cons frame frames ih =>
    cases frame with
    | quote position => exact ih (.quote value)
    | list position members => rfl

theorem decodeBody_shift (position : Int) (body : List Char) :
    decodeBody (position + distance) body =
      (decodeBody position body).mapError (ReadError.shift distance) := by
  unfold decodeBody
  cases Text.Quoted.decode body with
  | ok chars => rfl
  | error fault =>
    cases fault with
    | danglingEscape => rfl
    | unknownEscape char index =>
      have hplace : position + distance + index + 1 = position + index + 1 + distance := by omega
      change Except.error (ReadError.malformed (.unknownEscape char _)) = _
      rw [hplace]
      rfl

/-- A token further on has the same effect, and a fault in it is further on. -/
theorem step_shift (frames : List Frame) (token : Token) :
    step (frames.map (Frame.shift distance)) (token.shift distance) =
      ((step frames token).map (Progress.shift distance)).mapError (ReadError.shift distance) := by
  have hkind : (token.shift distance).kind = token.kind := rfl
  unfold step
  rw [hkind]
  cases token.kind with
  | atom =>
    have hatom : (token.shift distance).text = token.text := rfl
    simp only [hatom, place_shift]
    cases hvalue : Value.ofAtom token.text with
    | ok value => rfl
    | error error =>
      obtain rfl := Value.ofAtom_error hvalue
      rfl
  | string =>
    have hbody : (token.shift distance).body = token.body := rfl
    have hplace : (token.shift distance).position + 1 = token.position + 1 + distance :=
      Int.add_right_comm _ _ _
    simp only [hbody, hplace, decodeBody_shift, place_shift]
    cases decodeBody (token.position + 1) token.body <;> rfl
  | quote | openParen => rfl
  | closeParen =>
    cases frames with
    | nil => rfl
    | cons frame frames =>
      cases frame with
      | quote position => rfl
      | list position members => exact congrArg Except.ok (place_shift distance _ frames)
  | other name => rfl

theorem ending_shift (error? : Option SyntaxError) (frames : List Frame) :
    ending (error?.map (SyntaxError.shift distance)) (frames.map (Frame.shift distance)) =
      (ending error? frames).map (SyntaxError.shift distance) := by
  cases error? with
  | some error => rfl
  | none =>
    cases frames with
    | nil => rfl
    | cons frame frames => cases frame <;> rfl

/-- Tokens further on are read as the same values, with an error further on. -/
theorem parseAllFrom_shift (error? : Option SyntaxError) (frames : List Frame)
    (tokens : List Token) :
    parseAllFrom (error?.map (SyntaxError.shift distance)) (frames.map (Frame.shift distance))
        (tokens.map (Token.shift distance)) =
      (parseAllFrom error? frames tokens).shift distance := by
  induction tokens generalizing frames with
  | nil =>
    rw [List.map_nil, parseAllFrom, parseAllFrom, ending_shift]
    cases ending error? frames <;> rfl
  | cons token rest ih =>
    rw [List.map_cons, parseAllFrom, parseAllFrom, step_shift]
    cases step frames token with
    | error error => rfl
    | ok progress =>
      cases progress with
      | complete value =>
        have hrest := ih []
        rw [List.map_nil] at hrest
        change Reading.mk (value :: _) _ _ = _
        rw [hrest]
        rfl
      | pending frames => exact ih frames

/-- What is read to the end does not end in an error of the text. -/
theorem error?_of_parseAllFrom {error? : Option SyntaxError} {frames : List Frame}
    {tokens : List Token} (h : (parseAllFrom error? frames tokens).error? = none) :
    error? = none := by
  induction tokens generalizing frames with
  | nil =>
    cases error? with
    | none => rfl
    | some error => cases h
  | cons token rest ih =>
    rw [parseAllFrom] at h
    cases hstep : step frames token with
    | error error => simp [hstep] at h
    | ok progress =>
      rw [hstep] at h
      cases progress with
      | complete value | pending frames => exact ih h

end Parser

/-! ## Two lines -/

section
variable {first second : String} {forms : List Value}

/-- The second line is read as if it stood alone. -/
theorem readAll_newline (h : Source.readAll first = .ok forms) (second : String) :
    Source.readAll (first ++ "\n" ++ second) =
      match Source.readAll second with
      | .ok more => .ok (forms ++ more)
      | .error error => .error (error.shift (first.length + 1)) := by
  have hend : (Token.lex first).error? = none :=
    Parser.error?_of_parseAllFrom (Source.readAll_eq_ok_iff.mp h).1
  have hreading : Source.reading (first ++ "\n" ++ second) =
      let reading := (Source.reading second).shift (first.length + 1)
      { reading with values := forms ++ reading.values } := by
    unfold Source.reading Parser.parseAll
    rw [Token.lex_newline hend, ← Parser.parseAllFrom_shift]
    exact Parser.parseAllFrom_derivesEach _ (Parser.derivesEach_of_readAll h) _
  rw [Source.readAll_eq, Source.readAll_eq, Parser.Reading.all, Parser.Reading.all, hreading]
  simp only [Parser.Reading.shift]
  cases (Source.reading second).error? <;> rfl

/-- What becomes of the forms of the second line is found out after those of the first,
unless something else than an outcome comes of one of these. -/
theorem evalAll_newline [Host] {more : List Value} (hfirst : Source.readAll first = .ok forms)
    (hsecond : Source.readAll second = .ok more) (room : Nat) :
    evalAll room (first ++ "\n" ++ second) = do
      let outcomes ← evalAll room first
      let others ← evalAll room second
      return outcomes ++ others := by
  have hjoined := readAll_newline hfirst second
  rw [hsecond] at hjoined
  funext session
  rw [EStateM.bind_apply, evalAll_of_readAll hjoined, evalAll_of_readAll hfirst,
    attemptEach_append]
  rcases attemptEach room forms session with ⟨⟨outcomes, _ | reason⟩, middle⟩
  · simp only [EStateM.bind_apply, evalAll_of_readAll hsecond]
    rcases attemptEach room more middle with ⟨⟨others, _ | reason⟩, last⟩ <;> rfl
  · rfl

end

/-- Two texts on lines of their own, of which the first can be read. Together they are read
exactly if the second can be read, as the expressions of the first and then those of the
second; an error in the second is an error in both together, further on by the length of
the first line and its end. If both are read, evaluating them together is evaluating the
first and then the second in the session that the first has left. -/
theorem lines_compose [Host] (first second : String) (forms : List Value)
    (hfirst : Source.readAll first = .ok forms) :
    let joined := first ++ "\n" ++ second
    (∀ values, Source.readAll joined = .ok values ↔
      ∃ more, Source.readAll second = .ok more ∧ values = forms ++ more) ∧
    (∀ error, Source.readAll second = .error error →
      Source.readAll joined = .error (error.shift (first.length + 1))) ∧
    ∀ room more, Source.readAll second = .ok more →
      evalAll room joined = do
        let outcomes ← evalAll room first
        let others ← evalAll room second
        return outcomes ++ others := by
  refine ⟨?_, ?_, fun room more hsecond => evalAll_newline hfirst hsecond room⟩
  · intro values
    rw [readAll_newline hfirst]
    cases Source.readAll second with
    | ok more => simp [eq_comm]
    | error error => simp
  · intro error hsecond
    rw [readAll_newline hfirst, hsecond]

/-- The first line ends in a comment, which ends where the line does; the escape on the
second line is unknown, three characters from its beginning. -/
theorem lines_compose_sample :
    Source.readAll "(a) ; b" = .ok [.list [.sym "a"]] ∧
      Source.readAll "c \"\\q\"" = .error (.malformed (.unknownEscape 'q' 4)) ∧
      Source.readAll ("(a) ; b" ++ "\n" ++ "c \"\\q\"") =
        .error (.malformed (.unknownEscape 'q' 12)) := by
  have hfirst : Source.readAll "(a) ; b" = .ok [.list [.sym "a"]] := Source.readAll_eq _
  have hsecond : Source.readAll "c \"\\q\"" = .error (.malformed (.unknownEscape 'q' 4)) :=
    Source.readAll_eq _
  exact ⟨hfirst, hsecond, (lines_compose _ _ _ hfirst).2.1 _ hsecond⟩

end Sexpr
