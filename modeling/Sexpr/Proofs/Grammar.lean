import Sexpr.Proofs.Reading

/-!
# The grammar of expressions

Which tokens stand for which value, said as a grammar: an atom, a string, a quote
before an expression, or expressions between parentheses. The parser, which keeps
its place on a stack of frames, reads exactly what the grammar derives.
-/
namespace Sexpr.Parser

/-! ## Derivations -/

mutual

/-- The tokens are an expression that stands for the value. -/
inductive Derives : List Token → Value → Prop where
  | atom {token value} : token.kind = .atom → Value.ofAtom token.text = .ok value →
      Derives [token] value
  | string {token text} : token.kind = .string →
      decodeBody (token.position + 1) token.body = .ok text → Derives [token] (.str text)
  | quote {token tokens inner} : token.kind = .quote → Derives tokens inner →
      Derives (token :: tokens) (.quote inner)
  | list {first last tokens items} : first.kind = .openParen → DerivesEach tokens items →
      last.kind = .closeParen → Derives (first :: (tokens ++ [last])) (.list items)

/-- The tokens are expressions, one after the other, that stand for the values. -/
inductive DerivesEach : List Token → List Value → Prop where
  | nil : DerivesEach [] []
  | cons {tokens rest value values} : Derives tokens value → DerivesEach rest values →
      DerivesEach (tokens ++ rest) (value :: values)

end

theorem Derives.ne_nil {tokens : List Token} {value : Value} (h : Derives tokens value) :
    tokens ≠ [] := by
  cases h <;> exact List.cons_ne_nil _ _

theorem DerivesEach.append {a b : List Token} {as bs : List Value} (ha : DerivesEach a as)
    (hb : DerivesEach b bs) : DerivesEach (a ++ b) (as ++ bs) := by
  induction as generalizing a with
  | nil => cases ha; exact hb
  | cons value values ih =>
    cases ha with
    | cons hvalue hvalues =>
      rw [List.append_assoc]
      exact .cons hvalue (ih hvalues)

theorem DerivesEach.single {tokens : List Token} {value : Value} (h : Derives tokens value) :
    DerivesEach tokens [value] := by
  simpa using DerivesEach.cons h .nil

/-! ## Runs of the parser -/

variable (error? : Option SyntaxError)

/-- What is left to do after a token. -/
def proceed (rest : List Token) : Progress → Parsed
  | .complete value => .value value ⟨rest, error?⟩
  | .pending frames => parseFrom error? frames rest

theorem parseFrom_step {frames : List Frame} {token : Token} {progress : Progress}
    (h : step frames token = .ok progress) (rest : List Token) :
    parseFrom error? frames (token :: rest) = proceed error? rest progress := by
  rw [parseFrom, h]
  cases progress <;> rfl

section
variable {token : Token} (frames : List Frame)

theorem step_quote (h : token.kind = .quote) :
    step frames token = .ok (.pending (.quote token.position :: frames)) := by
  simp [step, h]

theorem step_open (h : token.kind = .openParen) :
    step frames token = .ok (.pending (.list token.position [] :: frames)) := by
  simp [step, h]

end

theorem place_quote (value : Value) (position : Int) (frames : List Frame) :
    place value (.quote position :: frames) = place (.quote value) frames := rfl

theorem place_list (value : Value) (position : Int) (members : List Value)
    (frames : List Frame) :
    place value (.list position members :: frames) =
      .pending (.list position (value :: members) :: frames) := rfl

/-! ## The parser reads what the grammar derives -/

mutual

theorem parseFrom_derives {tokens : List Token} {value : Value} :
    Derives tokens value → ∀ frames rest,
      parseFrom error? frames (tokens ++ rest) = proceed error? rest (place value frames)
  | @Derives.atom token _ hkind hvalue, frames, rest => by
    have hstep : step frames token = .ok (place value frames) := by
      simp [step, hkind, hvalue, Functor.map, Except.map]
    exact parseFrom_step error? hstep rest
  | @Derives.string token text hkind htext, frames, rest => by
    have hstep : step frames token = .ok (place (.str text) frames) := by
      simp [step, hkind, htext, bind, Except.bind, pure, Except.pure]
    exact parseFrom_step error? hstep rest
  | @Derives.quote token tokens inner hkind hinner, frames, rest => by
    calc
      parseFrom error? frames (token :: tokens ++ rest)
        = parseFrom error? (.quote token.position :: frames) (tokens ++ rest) :=
          parseFrom_step error? (step_quote frames hkind) _
      _ = proceed error? rest (place (.quote inner) frames) :=
          parseFrom_derives hinner _ rest
  | @Derives.list first last tokens items hfirst hitems hlast, frames, rest => by
    have hclose : step (.list first.position (items.reverse ++ []) :: frames) last =
        .ok (place (.list items) frames) := by
      simp [step, hlast]
    calc
      parseFrom error? frames (first :: (tokens ++ [last]) ++ rest)
        = parseFrom error? (.list first.position [] :: frames) (tokens ++ (last :: rest)) := by
          rw [List.cons_append, List.append_assoc]
          exact parseFrom_step error? (step_open frames hfirst) _
      _ = parseFrom error? (.list first.position (items.reverse ++ []) :: frames)
            (last :: rest) :=
          parseFrom_derivesEach hitems _ _ _ _
      _ = proceed error? rest (place (.list items) frames) :=
          parseFrom_step error? hclose rest

theorem parseFrom_derivesEach {tokens : List Token} {values : List Value} :
    DerivesEach tokens values → ∀ position members frames rest,
      parseFrom error? (.list position members :: frames) (tokens ++ rest) =
        parseFrom error? (.list position (values.reverse ++ members) :: frames) rest
  | .nil, position, members, frames, rest => rfl
  | @DerivesEach.cons tokens others value values hvalue hvalues, position, members, frames,
      rest => by
    calc
      parseFrom error? (.list position members :: frames) (tokens ++ others ++ rest)
        = parseFrom error? (.list position (value :: members) :: frames) (others ++ rest) := by
          rw [List.append_assoc, parseFrom_derives hvalue]
          rfl
      _ = parseFrom error? (.list position (values.reverse ++ value :: members) :: frames) rest :=
          parseFrom_derivesEach hvalues _ _ _ _
      _ = parseFrom error? (.list position ((value :: values).reverse ++ members) :: frames)
            rest := by
          simp

end

theorem parseAllFrom_derivesEach {tokens : List Token} {values : List Value}
    (h : DerivesEach tokens values) (rest : List Token) :
    parseAllFrom error? [] (tokens ++ rest) =
      { parseAllFrom error? [] rest with
        values := values ++ (parseAllFrom error? [] rest).values } := by
  induction values generalizing tokens with
  | nil => cases h; rfl
  | cons value values ih =>
    cases h with
    | cons hvalue hvalues =>
      rw [List.append_assoc, parseAllFrom_eq, parseFrom_derives error? hvalue]
      simp [place, proceed, ih hvalues]

/-! ## The grammar derives what the parser reads -/

/-- The tokens that have left these frames open. -/
inductive Opened : List Frame → List Token → Prop where
  | nil : Opened [] []
  | quote {frames tokens token} : Opened frames tokens → token.kind = .quote →
      Opened (.quote token.position :: frames) (tokens ++ [token])
  | list {frames tokens token others members} : Opened frames tokens →
      token.kind = .openParen → DerivesEach others members.reverse →
      Opened (.list token.position members :: frames) (tokens ++ token :: others)

/-- What tokens have led to: open frames, or a whole expression. -/
def Progress.Reached : Progress → List Token → Prop
  | .pending frames, tokens => Opened frames tokens
  | .complete value, tokens => Derives tokens value

theorem place_reached {frames : List Frame} {tokens others : List Token} {value : Value}
    (h : Opened frames tokens) (hvalue : Derives others value) :
    (place value frames).Reached (tokens ++ others) := by
  induction h generalizing others value with
  | nil => exact hvalue
  | @quote frames tokens token _ hkind ih =>
    rw [place_quote, List.append_assoc]
    exact ih (.quote hkind hvalue)
  | @list frames tokens token inner members hopened hkind hmembers _ =>
    rw [place_list, List.append_assoc]
    refine .list hopened hkind ?_
    rw [List.reverse_cons]
    exact hmembers.append (.single hvalue)

/-- One token keeps the frames and the tokens behind them in step. -/
theorem step_reached {frames : List Frame} {tokens : List Token} {token : Token}
    {progress : Progress} (h : Opened frames tokens) (hstep : step frames token = .ok progress) :
    progress.Reached (tokens ++ [token]) := by
  unfold step at hstep
  split at hstep
  · rename_i hkind
    cases hvalue : Value.ofAtom token.text with
    | error error => rw [hvalue] at hstep; cases hstep
    | ok value =>
      rw [hvalue] at hstep
      cases hstep
      exact place_reached h (.atom hkind hvalue)
  · rename_i hkind
    cases htext : decodeBody (token.position + 1) token.body with
    | error error => rw [htext] at hstep; cases hstep
    | ok text =>
      rw [htext] at hstep
      cases hstep
      exact place_reached h (.string hkind htext)
  · rename_i hkind
    cases hstep
    exact .quote h hkind
  · rename_i hkind
    cases hstep
    exact .list h hkind .nil
  · rename_i hkind
    split at hstep
    -- A parenthesis closes the innermost frame, which must be a list: what this frame
    -- holds has been derived from the tokens since it was opened.
    · cases h with
      | @list _ outer first inner members hopened hfirst hmembers =>
        cases hstep
        have hlist := Derives.list hfirst hmembers hkind
        simpa using place_reached hopened hlist
    · cases hstep
  · cases hstep

/-- What the parser reads, the grammar derives: from all the tokens if there is no error,
and from the first of them otherwise. -/
theorem exists_derivesEach {frames : List Frame} {before tokens : List Token}
    (h : Opened frames before) :
    ∃ front rest, before ++ tokens = front ++ rest ∧
      DerivesEach front (parseAllFrom error? frames tokens).values ∧
      ((parseAllFrom error? frames tokens).error? = none → rest = []) := by
  induction tokens generalizing frames before with
  | nil =>
    refine ⟨[], before ++ [], rfl, .nil, ?_⟩
    intro hend
    cases h with
    | nil => rfl
    | quote | list =>
      -- A frame that is still open is an error, so the end cannot come here.
      rw [parseAllFrom] at hend
      cases error? <;> cases hend
  | cons token rest ih =>
    rw [parseAllFrom]
    cases hstep : step frames token with
    | error error =>
      refine ⟨[], before ++ token :: rest, rfl, .nil, ?_⟩
      intro hend
      cases hend
    | ok progress =>
      have hreached := step_reached h hstep
      cases progress with
      | complete value =>
        obtain ⟨front, others, htokens, hderives, hend⟩ := ih .nil
        refine ⟨before ++ [token] ++ front, others, ?_, .cons hreached hderives, hend⟩
        rw [List.append_assoc _ front, ← htokens]
        simp
      | pending frames =>
        obtain ⟨front, others, htokens, hderives, hend⟩ := ih hreached
        exact ⟨front, others, by simpa using htokens, hderives, hend⟩

theorem derivesEach_of_parseAllFrom {frames : List Frame} {before tokens : List Token}
    (h : Opened frames before) (hend : (parseAllFrom error? frames tokens).error? = none) :
    DerivesEach (before ++ tokens) (parseAllFrom error? frames tokens).values := by
  obtain ⟨front, rest, htokens, hderives, hrest⟩ := exists_derivesEach error? h
  rw [htokens, hrest hend, List.append_nil]
  exact hderives

/-- A source that can be read is made up of expressions. -/
theorem derivesEach_of_readAll {source : String} {values : List Value}
    (h : Source.readAll source = .ok values) : DerivesEach (Token.lex source).tokens values := by
  obtain ⟨hend, rfl⟩ := Source.readAll_eq_ok_iff.mp h
  exact derivesEach_of_parseAllFrom _ .nil hend

end Sexpr.Parser
