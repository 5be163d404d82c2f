import Sexpr.Proofs.Endings
import Sexpr.Proofs.Histories
import Sexpr.Proofs.RoundTrip

/-!
# What is shown of values

A session that is driven by source text holds nothing but what comes from source text and
from the built-in primitives: its symbols have names, and the integers that are read have
numerals of bounded length. So what is shown of its values stands on one line, and no value
looks like an error.
-/
namespace Sexpr

/-! ## Leaves that come from source text -/

/-- The leaf can come from source text or from the built-in primitives. -/
def Spoken : Value → Prop
  | .sym name => IsName name
  | .prim primitive => primitive ∈ Primitive.builtins
  | .foreign _ => False
  | _ => True

theorem spoken_closed : Closed Spoken :=
  ⟨trivial, fun _ => trivial, fun _ => trivial, fun _ h => h⟩

theorem native_of_spoken (leaf : Value) (h : Spoken leaf) : Native leaf := by
  cases leaf with
  | foreign object => exact h.elim
  | prim primitive => exact h
  | nil | bool | int | str | sym | list | quote => trivial

theorem Value.Readable.spoken {value : Value} (h : value.Readable) : value.Every Spoken := by
  refine Every.imp ?_ h
  intro leaf hleaf
  cases leaf with
  | prim | foreign => exact hleaf.elim
  | sym name => exact hleaf
  | nil | bool | int | str | list | quote => trivial

theorem Value.ofAtom_fits {text : String} {value : Value} (h : ofAtom text = .ok value) :
    value.Every Fits := by
  cases ofAtom_eq_iff.mp h with
  | nil | true | false | symbol => trivial
  | integer hdigits hlength =>
    rw [← Numeral.ofDigits_eq]
    exact hdigits.fits hlength

theorem Source.fits_of_reading (source : String) :
    ∀ value ∈ (reading source).values, value.Every Fits :=
  every_of_reading (fun _ => trivial) (fun _ _ h _ => Value.ofAtom_fits h) source

theorem Source.fits_of_readAll {source : String} {values : List Value}
    (h : readAll source = .ok values) : ∀ value ∈ values, value.Every Fits := by
  obtain ⟨_, rfl⟩ := readAll_eq_ok_iff.mp h
  exact fits_of_reading source

/-! ## Sessions that source text drives -/

theorem Session.Every.imp {p q : Value → Prop} (h : ∀ leaf, p leaf → q leaf) {session : Session}
    (hsession : session.Every p) : session.Every q :=
  fun name value hname => (hsession name value hname).imp h

theorem Leads.every [Host] {p : Value → Prop} (hp : Closed p) {session last : Session}
    {moments : List Moment} (h : Leads session moments last)
    (hmoments : ∀ moment ∈ moments, moment.expr.Every p) (hsession : session.Every p) :
    last.Every p := by
  induction h with
  | nil => exact hsession
  | @cons room expr session moments last _ ih =>
    rw [List.forall_mem_cons] at hmoments
    exact ih hmoments.2 (exec_every hp hmoments.1 hsession)

/-- What becomes of a form has known leaves if it is a value, and so has what is left bound. -/
theorem Becomes.every [Host] {p : Value → Prop} (hp : Closed p) {room : Nat} {form : Value}
    {session after : Session} {outcome : Outcome} (hform : form.Every p)
    (hsession : session.Every p) (h : Becomes room form session outcome after) :
    (∀ value, outcome = .value value → value.Every p) ∧ after.Every p := by
  have hexec : ((evaluate room form).exec session).Every p := exec_every hp hform hsession
  cases h with
  | value hresult =>
    have hends := evaluate_ends hp room form hform session hsession
    rw [hresult] at hends
    rw [EStateM.exec_ok hresult] at hexec
    refine ⟨?_, hexec⟩
    rintro _ ⟨⟩
    exact hends.1
  | failure hresult | tooDeep hresult =>
    rw [EStateM.exec_error hresult] at hexec
    exact ⟨nofun, hexec⟩

/-- Whatever texts a session has been driven with, it holds nothing else. -/
theorem History.every_spoken [Host] (history : List Command) :
    (History.exec .initial history).Every Spoken := by
  refine (History.leads .initial history).every spoken_closed ?_ ?_
  · intro moment hmoment
    obtain ⟨command, _, hexpr⟩ := History.expr_mem_of_mem_moments hmoment
    exact (Source.readable_of_reading command.source _ hexpr).spoken
  · exact Session.Every.register (fun _ _ h => by cases h) fun _ h => h

/-! ## Lines -/

/-- The text has no line feed in it. -/
def OneLine (text : String) : Prop := '\n' ∉ text.toList

/-- The line says that something is wrong. -/
def IsErrorLine (line : String) : Prop := ∃ rest, line = "error: " ++ rest

theorem oneLine_append_iff {a b : String} : OneLine (a ++ b) ↔ OneLine a ∧ OneLine b := by
  simp [OneLine]

theorem oneLine_intercalate {texts : List String} (h : ∀ text ∈ texts, OneLine text) :
    OneLine (" ".intercalate texts) := by
  induction texts with
  | nil => simp [OneLine]
  | cons text rest ih =>
    rw [List.forall_mem_cons] at h
    cases rest with
    | nil => simpa using h.1
    | cons next rest =>
      rw [String.intercalate_cons_cons]
      have hspace : OneLine " " := by simp [OneLine]
      exact oneLine_append_iff.mpr ⟨oneLine_append_iff.mpr ⟨h.1, hspace⟩, ih h.2⟩

theorem IsErrorLine.chars {line : String} (h : IsErrorLine line) :
    line.toList.head? = some 'e' ∧ ' ' ∈ line.toList := by
  obtain ⟨rest, rfl⟩ := h
  simp

theorem IsName.oneLine {name : String} (h : IsName name) : OneLine name := by
  intro hfeed
  have hblank := (h.chars '\n' hfeed).1
  cases hblank

theorem oneLine_literal (text : String) : OneLine (Text.Quoted.literal text) := by
  have hencode : ∀ chars : List Char, '\n' ∉ Text.Quoted.encode chars := by
    intro chars
    induction chars with
    | nil => simp [Text.Quoted.encode]
    | cons c rest ih =>
      rw [Text.Quoted.encode]
      split
      · rename_i sign hsign
        have hne : sign ≠ '\n' := by
          rintro rfl
          have := Text.Quoted.unescape?_of_escape? hsign
          cases this
        simp [ih, hne.symm]
      · rename_i hplain
        have hne : c ≠ '\n' := by
          rintro rfl
          cases hplain
        simp [ih, hne.symm]
  simp [OneLine, Text.Quoted.literal, hencode]

theorem oneLine_toString (n : Int) : OneLine (toString n) := by
  intro hfeed
  rcases (Numeral.chars_toString n).2 '\n' hfeed with h | h <;> cases h

theorem oneLine_of_mem_builtins {primitive : Primitive} (h : primitive ∈ Primitive.builtins) :
    OneLine primitive.name := by
  simp only [Primitive.builtins, List.mem_cons, List.not_mem_nil, or_false] at h
  rcases h with rfl | rfl | rfl | rfl | rfl | rfl | rfl | rfl | rfl | rfl <;> simp [OneLine]

/-! ## Values in writing -/

namespace Value

variable {value : Value} {room : Nat} {text : String}

theorem renderEach_ok {items : List Value} {texts : List String}
    (h : renderEach room items = .ok texts) :
    ∀ text ∈ texts, ∃ item ∈ items, item.render room = .ok text := by
  induction items generalizing texts with
  | nil =>
    cases h
    exact nofun
  | cons item items ih =>
    obtain ⟨text, others, htext, hothers, rfl⟩ := renderEach_cons h
    intro shown hshown
    rcases List.mem_cons.mp hshown with rfl | hshown
    · exact ⟨item, List.mem_cons_self, htext⟩
    · obtain ⟨later, hlater, hrender⟩ := ih hothers shown hshown
      exact ⟨later, List.mem_cons_of_mem _ hlater, hrender⟩

/-- The written form of a value stands on one line. -/
theorem render_oneLine (hvalue : value.Every Spoken) (h : value.render room = .ok text) :
    OneLine text := by
  induction value generalizing room text with
  | nil =>
    cases h
    simp [OneLine]
  | bool b => cases b <;> cases h <;> simp [OneLine]
  | int n =>
    obtain ⟨-, rfl⟩ := Numeral.render_ok (render_int h)
    exact oneLine_toString n
  | str text' =>
    cases h
    exact oneLine_literal text'
  | sym name =>
    cases h
    exact IsName.oneLine hvalue
  | list items ih =>
    obtain ⟨inner, texts, htexts, rfl⟩ := render_list h
    simp only [Every, everyEach_iff] at hvalue
    have hinner : OneLine (" ".intercalate texts) := oneLine_intercalate fun text htext => by
      obtain ⟨item, hitem, hrender⟩ := renderEach_ok htexts text htext
      exact ih item hitem (hvalue item hitem) hrender
    simpa [oneLine_append_iff, OneLine] using hinner
  | quote inner ih =>
    obtain ⟨room', text', htext', rfl⟩ := render_quote h
    have hinner : OneLine text' := ih hvalue htext'
    simpa [oneLine_append_iff, OneLine] using hinner
  | prim primitive =>
    cases h
    have hname := oneLine_of_mem_builtins hvalue
    simpa [oneLine_append_iff, OneLine] using hname
  | foreign object => exact hvalue.elim

/-- The written form of a value is not taken for an error: it begins in another way, or it
has no blank in it. -/
theorem render_ne_error (hvalue : value.Every Spoken) (h : value.render room = .ok text) :
    ¬IsErrorLine text := by
  intro herror
  obtain ⟨hfirst, hblank⟩ := herror.chars
  cases value with
  | nil => cases h; simp at hfirst
  | bool b => cases b <;> cases h <;> simp at hblank
  | int n =>
    obtain ⟨-, rfl⟩ := Numeral.render_ok (render_int h)
    rcases (Numeral.chars_toString n).2 ' ' hblank with h | h <;> cases h
  | str text' => cases h; simp [Text.Quoted.literal] at hfirst
  | sym name =>
    have hname : IsName name := hvalue
    cases h
    have hspace := (hname.chars ' ' hblank).1
    cases hspace
  | list items =>
    obtain ⟨inner, texts, htexts, rfl⟩ := render_list h
    simp at hfirst
  | quote inner =>
    obtain ⟨room', text', htext', rfl⟩ := render_quote h
    simp at hfirst
  | prim primitive => cases h; simp at hfirst
  | foreign object => exact hvalue.elim

/-- An expression that has no written form is nested too deeply, or it holds an integer
with too many digits. -/
theorem render_error {reason : Unwritable} (hvalue : value.Every IsExpression)
    (h : value.render room = .error reason) :
    reason = .tooDeep ∨ (reason = .oversizedInteger ∧ ¬value.Every Fits) := by
  induction value generalizing room with
  | nil | str | sym | prim => cases h
  | foreign => exact hvalue.elim
  | bool b => cases b <;> cases h
  | int n =>
    rw [render] at h
    obtain ⟨rfl, hfits⟩ := Unwritable.numeral_error h
    exact .inr ⟨rfl, by simp [Fits, hfits]⟩
  | list items ih =>
    simp only [Every, everyEach_iff] at hvalue ⊢
    rw [render] at h
    rcases bind_eq_error_iff.mp h with hroom | ⟨inner, _, htexts⟩
    · exact .inl (Unwritable.within_error hroom)
    · rcases bind_eq_error_iff.mp htexts with hitems | ⟨texts, _, hreturn⟩
      · rw [renderEach_eq] at hitems
        obtain ⟨item, hitem, herror⟩ := mapM_eq_error hitems
        rcases ih item hitem (hvalue item hitem) herror with hdeep | ⟨hreason, hevery⟩
        · exact .inl hdeep
        · exact .inr ⟨hreason, fun hall => hevery (hall item hitem)⟩
      · cases hreturn
  | quote inner ih =>
    rw [render] at h
    rcases bind_eq_error_iff.mp h with hroom | ⟨left, _, htext⟩
    · exact .inl (Unwritable.within_error hroom)
    · rcases bind_eq_error_iff.mp htext with hinner | ⟨text, _, hreturn⟩
      · exact ih hvalue hinner
      · cases hreturn

end Value

/-! ## Failures in words -/

/-- The failure shows this part of the form: what it could make nothing of, or the target
of a definition that is no symbol. -/
inductive Failure.ShowsPart (form : Value) : Failure → Value → Prop where
  | unknown {value} : Within value form → ShowsPart form (.unknown value) value
  | badTarget {target body} : Within (.list [.sym "def", target, body]) form →
      ShowsPart form (.defineBadSymbol target) target

/-- What a form that fails fails in, as far as it is shown: a name, how a built-in primitive
is called, or a part of the form. -/
inductive Failure.From (form : Value) : Failure → Prop where
  | symbol {failure name} : IsName name →
      failure ∈ [.undefined (.sym name), .redefine (.sym name), .specialTooFewArgs (.sym name),
        .specialTooManyArgs (.sym name), .badArg (.sym name), .notAFunction (.sym name)] →
      From form failure
  | tooFewArgs {primitive count} : primitive ∈ Primitive.builtins → count < primitive.minArity →
      From form (.primitiveTooFewArgs (.str primitive.name) (.int primitive.minArity) (.int count))
  | part {failure value} : failure.ShowsPart form value → From form failure
  | tooDeep : From form .nestingTooDeep

theorem minArity_le_of_mem_builtins {primitive : Primitive} (h : primitive ∈ Primitive.builtins) :
    primitive.minArity ≤ 2 := by
  simp only [Primitive.builtins, List.mem_cons, List.not_mem_nil, or_false] at h
  rcases h with rfl | rfl | rfl | rfl | rfl | rfl | rfl | rfl | rfl | rfl <;> decide

theorem fits_of_le_two {n : Nat} (h : n ≤ 2) : Numeral.fits n = true := by
  have hbound : 2 < Numeral.bound := by decide +kernel
  exact decide_eq_true (Nat.lt_of_le_of_lt h hbound)

/-- Evaluation fails in something that comes from the form. -/
theorem evaluate_from [Host] {room : Nat} {form : Value} {session after : Session}
    {failure : Failure} (hform : form.Readable) (hsession : session.Every Native)
    (h : evaluate room form session = .error (.failure failure) after) : failure.From form := by
  obtain ⟨target, hreach, hfault⟩ := Moment.exists_fault h
  have hwithin : Within target.expr form := hreach.within
  have hread : target.expr.Readable := hwithin.every hform
  obtain ⟨hexpr, hmiddle⟩ :=
    hreach.every native_closed (hform.spoken.imp native_of_spoken) hsession
  have hhead {name : String} {args : List Value}
      (hlist : (Value.list (.sym name :: args)).Readable) : IsName name := by
    simp only [Value.Readable, Value.Every, Value.everyEach_iff, List.forall_mem_cons] at hlist
    exact hlist.1
  generalize hreason : Halt.failure failure = reason at hfault
  cases hfault with
  | foreign | tooDeep => cases hreason
  | symbol =>
    cases hreason
    exact .symbol hread (by simp)
  | headless =>
    cases hreason
    exact .part (.unknown hwithin)
  | badTarget hname =>
    cases hreason
    cases Value.ofName?_some hname
    exact .part (.badTarget hwithin)
  | misuse =>
    cases hreason
    unfold SpecialForm.arityFailure
    split <;> exact .symbol (hhead hread) (by simp)
  | redefine =>
    cases hreason
    simp only [Value.definition, Value.Readable, Value.Every, Value.everyEach_iff,
      List.forall_mem_cons] at hread
    exact .symbol hread.2.1 (by simp)
  | head | notAFunction =>
    cases hreason
    exact .symbol (hhead hread) (by simp)
  | call hcalls hcall =>
    have hmem := (hcalls.every native_closed hexpr hmiddle).1
    obtain ⟨operation, hoperation⟩ := operation_of_mem_builtins hmem
    subst hreason
    rw [call_builtin hoperation] at hcall
    split at hcall
    · rename_i hfew
      cases hcall
      exact .tooFewArgs hmem hfew
    · split at hcall
      · cases hcall
      · split at hcall
        · cases hcall
          cases hcalls
          exact .symbol (hhead hread) (by simp)
        -- That the words of a rejection cannot be had is not a failure.
        · rename_i reason _
          cases reason <;> cases hcall

namespace Failure.From

variable {form : Value} {failure : Failure}

/-- Unless the failure shows a part of the form, there are words for it in any room. -/
theorem words_or_part (h : failure.From form) :
    (∀ room, (∃ text, failure.describe room = .ok text ∧ OneLine text) ∧
      ∃ text, failure.inspect room = .ok text) ∨ ∃ value, failure.ShowsPart form value := by
  cases h with
  | part hshows => exact .inr ⟨_, hshows⟩
  | tooDeep => exact .inl fun room => ⟨⟨_, rfl, by simp [OneLine]⟩, _, rfl⟩
  | symbol hname hfailure =>
    refine .inl fun room => ?_
    have hline := hname.oneLine
    simp only [List.mem_cons, List.not_mem_nil, or_false] at hfailure
    rcases hfailure with rfl | rfl | rfl | rfl | rfl | rfl <;>
      exact ⟨⟨_, rfl, oneLine_append_iff.mpr ⟨by simp [OneLine], hline⟩⟩, _, rfl⟩
  | @tooFewArgs primitive count hmem hfew =>
    refine .inl fun room => ?_
    have hminimum := minArity_le_of_mem_builtins hmem
    have hleast := Unwritable.numeral_of_fits (fits_of_le_two hminimum)
    have hcount := Unwritable.numeral_of_fits
      (fits_of_le_two (Nat.le_trans (Nat.le_of_lt hfew) hminimum))
    simp only [describe, inspect, inspectPayload, payload, Value.display, Value.inspectEach,
      Value.inspect, hleast, hcount]
    refine ⟨⟨_, rfl, ?_⟩, _, rfl⟩
    have hname := oneLine_of_mem_builtins hmem
    have hleast := oneLine_toString primitive.minArity
    have hcount := oneLine_toString count
    simp only [oneLine_append_iff, hname, hleast, hcount, and_true, true_and]
    simp [OneLine]

end Failure.From

namespace Failure.ShowsPart

variable {form value : Value} {failure : Failure}

theorem within (h : failure.ShowsPart form value) {p : Value → Prop} (hform : form.Every p) :
    value.Every p := by
  cases h with
  | unknown hwithin => exact hwithin.every hform
  | badTarget hwithin =>
    have hlist := hwithin.every hform
    simp only [Value.Every, Value.everyEach_iff, List.forall_mem_cons] at hlist
    exact hlist.2.1

/-- The failure is described by what it shows in writing. -/
theorem describe_eq (h : failure.ShowsPart form value) :
    ∃ front, OneLine front ∧
      ∀ room, failure.describe room = (front ++ ·) <$> value.render room := by
  cases h with
  | unknown => exact ⟨_, by simp [OneLine], fun room => rfl⟩
  | badTarget => exact ⟨_, by simp [OneLine], fun room => rfl⟩

theorem inspect_error_iff (h : failure.ShowsPart form value) {room : Nat} {reason : Unwritable} :
    failure.inspect room = .error reason ↔ value.inspect room = .error reason := by
  cases h with
  | unknown | badTarget =>
    simp only [inspect, inspectPayload, payload, Value.inspectEach]
    cases value.inspect room with
    | ok text =>
      constructor
      · intro h
        cases h
      · intro h
        cases h
    | error reason' =>
      constructor
      · intro h
        cases h
        rfl
      · intro h
        cases h
        rfl

end Failure.ShowsPart

/-! ## When there are no words -/

namespace Failure.From

variable {form : Value} {failure : Failure}

/-- A failure is described in one line, or what it shows is too deep. -/
theorem describe_line (h : failure.From form) (hform : form.Readable) (hfits : form.Every Fits)
    (room : Nat) :
    (∃ text, failure.describe room = .ok text ∧ OneLine text) ∨
      failure.describe room = .error .tooDeep := by
  rcases h.words_or_part with hwords | ⟨value, hshows⟩
  · exact .inl (hwords room).1
  · obtain ⟨front, hfront, hdescribe⟩ := hshows.describe_eq
    have hspoken := hshows.within hform.spoken
    have hexpression := (hspoken.imp native_of_spoken).imp isExpression_of_native
    rw [hdescribe room]
    cases hrender : value.render room with
    | ok text =>
      have hline := Value.render_oneLine hspoken hrender
      exact .inl ⟨_, rfl, oneLine_append_iff.mpr ⟨hfront, hline⟩⟩
    | error reason =>
      rcases Value.render_error hexpression hrender with rfl | ⟨_, hevery⟩
      · exact .inr rfl
      · exact (hevery (hshows.within hfits)).elim

/-- A failure is shown in the log, or what it shows is too deep. -/
theorem inspect_line (h : failure.From form) (hfits : form.Every Fits) (room : Nat) :
    (∃ text, failure.inspect room = .ok text) ∨ failure.inspect room = .error .tooDeep := by
  rcases h.words_or_part with hwords | ⟨value, hshows⟩
  · exact .inl (hwords room).2
  · cases hinspect : failure.inspect room with
    | ok text => exact .inl ⟨text, rfl⟩
    | error reason =>
      rcases inspect_error (hshows.inspect_error_iff.mp hinspect) with rfl | ⟨_, hevery⟩
      · exact .inr rfl
      · exact (hevery (hshows.within hfits)).elim

end Failure.From

end Sexpr
