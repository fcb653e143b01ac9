import ScriptDoc.Proofs.Text
import ScriptDoc.Value

/-! Value notation and its reader are exact inverses. The well-formed values are those that can be
read back: the brackets are never ambiguous, so what matters is that the first equals sign and the
three dots inside them can only be read the way they were written. -/
namespace ScriptDoc.Value

def body (v : Value) : Text := match v.default with
  | none => v.name
  | some text => v.name ++ '=' :: text

structure WellFormed (v : Value) : Prop where
  named : v.name ≠ []
  undivided : '=' ∉ v.name
  requiredAlone : v.required = true → v.default = none
  undotted : v.variadic = false → ¬ dots <:+ v.body

instance (v : Value) : Decidable v.WellFormed :=
  decidable_of_iff (v.name ≠ [] ∧ '=' ∉ v.name ∧ (v.required = true → v.default = none) ∧
      (v.variadic = false → ¬ dots <:+ v.body))
    ⟨fun h => ⟨h.1, h.2.1, h.2.2.1, h.2.2.2⟩,
      fun h => ⟨h.named, h.undivided, h.requiredAlone, h.undotted⟩⟩

def inner (v : Value) : Text := v.body ++ if v.variadic then dots else []

def opening (required : Bool) : Char := if required then '<' else '['

def closing (required : Bool) : Char := if required then '>' else ']'

theorem dropDotsSome {s body : Text} : dropDots? s = some body ↔ s = body ++ dots := by
  constructor
  · intro found
    unfold dropDots? at found
    split at found
    · rename_i rest reversed
      cases Option.some.inj found
      have back := congrArg List.reverse reversed
      simpa [dots] using back
    · contradiction
  · intro same
    subst same
    simp [dropDots?, dots]

theorem dropDotsNone {s : Text} : dropDots? s = none ↔ ¬ dots <:+ s := by
  constructor
  · rintro missing ⟨body, same⟩
    rw [dropDotsSome.mpr same.symm] at missing
    contradiction
  · intro undotted
    cases found : dropDots? s with
    | none => rfl
    | some body => exact absurd ⟨body, (dropDotsSome.mp found).symm⟩ undotted

theorem ofBodyReads {v : Value} (named : v.name ≠ []) (undivided : '=' ∉ v.name)
    (requiredAlone : v.required = true → v.default = none) :
    ofBody v.required v.variadic v.body = .ok v := by
  obtain ⟨name, required, default, variadic⟩ := v
  cases default with
  | none => simp only [ofBody, body, Text.cutAbsent undivided]
  | some text =>
    have optional : required = false := by
      cases required with
      | false => rfl
      | true => exact absurd (requiredAlone rfl) (by simp)
    subst optional
    have nonempty : name.isEmpty = false := by simpa using named
    simp only [ofBody, body, Text.cutFirst undivided, nonempty, Bool.false_eq_true, if_false]

theorem ofBodySource {required variadic : Bool} {text : Text} {v : Value} (nonempty : text ≠ [])
    (ok : ofBody required variadic text = .ok v) :
    v.name ≠ [] ∧ '=' ∉ v.name ∧ (v.required = true → v.default = none) ∧
      v.required = required ∧ v.variadic = variadic ∧ v.body = text := by
  rcases Text.cutCases '=' text with ⟨absent, whole⟩ | ⟨before, after, absent, same, found⟩
  · simp only [ofBody, whole] at ok
    cases ok
    exact ⟨nonempty, absent, fun _ => rfl, rfl, rfl, rfl⟩
  · simp only [ofBody, found] at ok
    split at ok
    · contradiction
    · rename_i optional
      split at ok
      · contradiction
      · rename_i named
        cases ok
        exact ⟨by simpa using named, absent, fun h => absurd h optional, rfl, rfl, same.symm⟩

theorem ofInnerReads {v : Value} (good : v.WellFormed) : ofInner v.required v.inner = .ok v := by
  have whole := ofBodyReads good.named good.undivided good.requiredAlone
  cases variadic : v.variadic with
  | true =>
    have dotted : dropDots? v.inner = some v.body := dropDotsSome.mpr (by simp [inner, variadic])
    have nonempty : v.body.isEmpty = false := by
      cases default : v.default <;> simp [body, default, good.named]
    rw [variadic] at whole
    simp only [ofInner, dotted, nonempty, Bool.false_eq_true, if_false, whole]
  | false =>
    have same : v.inner = v.body := by simp [inner, variadic]
    have undotted : dropDots? v.body = none := dropDotsNone.mpr (good.undotted variadic)
    rw [variadic] at whole
    simp only [same, ofInner, undotted, whole]

theorem ofInnerSource {required : Bool} {text : Text} {v : Value} (nonempty : text ≠ [])
    (ok : ofInner required text = .ok v) :
    v.WellFormed ∧ v.required = required ∧ v.inner = text := by
  unfold ofInner at ok
  cases dotted : dropDots? text with
  | some stem =>
    simp only [dotted] at ok
    split at ok
    · contradiction
    · rename_i filled
      obtain ⟨named, undivided, alone, sameRequired, variadic, same⟩ :=
        ofBodySource (by simpa using filled) ok
      refine ⟨⟨named, undivided, alone, ?_⟩, sameRequired, ?_⟩
      · intro single
        rw [variadic] at single
        contradiction
      · rw [inner, variadic, same]
        exact (dropDotsSome.mp dotted).symm
  | none =>
    simp only [dotted] at ok
    obtain ⟨named, undivided, alone, sameRequired, variadic, same⟩ := ofBodySource nonempty ok
    refine ⟨⟨named, undivided, alone, ?_⟩, sameRequired, ?_⟩
    · intro _
      rw [same]
      exact dropDotsNone.mp dotted
    · simp [inner, variadic, same]

theorem innerNonempty {v : Value} (named : v.name ≠ []) : v.inner ≠ [] := by
  cases default : v.default <;> simp [inner, body, default, named]

theorem writtenInBrackets {v : Value} (requiredAlone : v.required = true → v.default = none) :
    v.written = opening v.required :: (v.inner ++ [closing v.required]) := by
  obtain ⟨name, required, default, variadic⟩ := v
  cases required with
  | true =>
    have alone : default = none := requiredAlone rfl
    subst alone
    simp [written, inner, body, opening, closing]
  | false => cases default <;> simp [written, inner, body, opening, closing]

theorem requiredByExact {first last : Char} {required : Bool} :
    requiredBy? first last = some required ↔ first = opening required ∧ last = closing required := by
  constructor
  · intro found
    unfold requiredBy? at found
    split at found
    · cases Option.some.inj found; exact ⟨rfl, rfl⟩
    · cases Option.some.inj found; exact ⟨rfl, rfl⟩
    · contradiction
  · rintro ⟨rfl, rfl⟩
    cases required <;> rfl

theorem ofTrimmedReads {v : Value} (good : v.WellFormed) : ofTrimmed v.written = .ok v := by
  rw [writtenInBrackets good.requiredAlone]
  have long : ¬ (opening v.required :: (v.inner ++ [closing v.required])).length < 3 := by
    have positive := List.length_pos_iff.mpr (innerNonempty good.named)
    simp only [List.length_cons, List.length_append, List.length_nil]
    omega
  have last : (opening v.required :: (v.inner ++ [closing v.required])).getLast? =
      some (closing v.required) := by
    rw [← List.cons_append, List.getLast?_concat]
  simp only [ofTrimmed, if_neg long, last, requiredByExact.mpr ⟨rfl, rfl⟩, List.dropLast_concat]
  exact ofInnerReads good

theorem ofTrimmedSource {s : Text} {v : Value} (ok : ofTrimmed s = .ok v) :
    v.WellFormed ∧ v.written = s := by
  unfold ofTrimmed at ok
  split at ok
  · contradiction
  · rename_i long
    split at ok
    · rename_i first rest last lastOf
      cases brackets : requiredBy? first last with
      | none => simp [brackets] at ok
      | some required =>
        simp only [brackets] at ok
        obtain ⟨rfl, rfl⟩ := requiredByExact.mp brackets
        -- The last character of the text is the last one after the opening bracket.
        have filled : rest ≠ [] := by
          rintro rfl
          simp at long
        have whole : rest = rest.dropLast ++ [closing required] := by
          rw [List.getLast?_cons_of_ne_nil filled] at lastOf
          exact (List.dropLast_append_getLast? _ lastOf).symm
        have nonempty : rest.dropLast ≠ [] := by
          intro empty
          rw [whole, empty] at long
          simp at long
        obtain ⟨good, sameRequired, same⟩ := ofInnerSource nonempty ok
        refine ⟨good, ?_⟩
        rw [writtenInBrackets good.requiredAlone, sameRequired, same, ← whole]
    · contradiction

theorem writtenTrimmed {v : Value} (good : v.WellFormed) : Text.Trimmed v.written := by
  rw [writtenInBrackets good.requiredAlone, Text.trimmedIff]
  refine ⟨fun c head => ?_, fun c last => ?_⟩
  · cases Option.some.inj head
    cases v.required <;> decide
  · rw [← List.cons_append, List.getLast?_concat] at last
    cases Option.some.inj last
    cases v.required <;> decide

theorem readExact {s : Text} {v : Value} :
    read s = .ok v ↔ v.WellFormed ∧ v.written = Text.trim s := by
  constructor
  · intro ok
    apply ofTrimmedSource
    cases trimmed : ofTrimmed (Text.trim s) with
    | ok w => simpa [read, trimmed] using ok
    | error fault => simp [read, trimmed] at ok
  · rintro ⟨good, same⟩
    simp only [read, ← same, ofTrimmedReads good]

theorem readWritten {v : Value} : read v.written = .ok v ↔ v.WellFormed := by
  constructor
  · intro ok
    exact (readExact.mp ok).1
  · intro good
    exact readExact.mpr ⟨good, (writtenTrimmed good).symm⟩

theorem notationInverse (s : Text) (v : Value) :
    (read s = .ok v ↔ v.WellFormed ∧ v.written = Text.trim s) ∧
    (read v.written = .ok v ↔ v.WellFormed) ∧
    ((∃ w, read s = .ok w ∧ w.written = Text.trim s) ∨
      (∃ e, read s = .error e ∧ ∀ w : Value, w.WellFormed → w.written ≠ Text.trim s)) := by
  refine ⟨readExact, readWritten, ?_⟩
  cases outcome : read s with
  | ok w => exact Or.inl ⟨w, rfl, (readExact.mp outcome).2⟩
  | error e =>
    refine Or.inr ⟨e, rfl, fun w good same => ?_⟩
    rw [readExact.mpr ⟨good, same⟩] at outcome
    contradiction

end ScriptDoc.Value
