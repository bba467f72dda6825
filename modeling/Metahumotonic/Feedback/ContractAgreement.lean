import Metahumotonic.Feedback.Contract

/-! When the two contracts of a submission accept the same bodies and read the same in them. -/
namespace Metahumotonic.Feedback

open Library Fallback

/-- How a language measures a text: a field that it trims, a field that it does not, and whether a
blank path is the root. -/
structure Language where
  blank : ℕ → Bool
  fits : ℕ → List ℕ → Text → Prop
  short : ℕ → Text → Prop
  blankIsRoot : Prop

/-- Everything is measured as it came, in characters. -/
def python : Language where
  blank := pyBlank
  fits limit allow v := v.all scalar = true ∧ v.length ≤ limit ∧ hasControlChar allow v = false
  short limit v := v.all scalar = true ∧ v.length ≤ limit
  blankIsRoot := True

/-- What is trimmed is measured afterwards, in code units. -/
def typeScript : Language where
  blank := jsBlank
  fits limit allow v := TypeScript.length (trim jsBlank v) ≤ limit ∧
    hasControlChar allow (trim jsBlank v) = false
  short limit v := TypeScript.length v ≤ limit
  blankIsRoot := False

/-- The limits of a language and its ban on control characters. -/
structure Measured (l : Language) (w : Wire) : Prop where
  subject : ∀ v, w.subject = some v → l.fits 255 nothingAllowed v
  body : ∀ v, w.body = some v → l.fits 5000 whitespaceAllowed v
  email : ∀ v, w.email = some v → l.fits 255 nothingAllowed v
  sourcePath : ∀ v, w.sourcePath = some v → l.fits 500 nothingAllowed v
  honeypot : ∀ v, w.honeypot = some v → l.short 255 v
  turnstileToken : ∀ v, w.turnstileToken = some v → l.short 4096 v

/-- What is asked besides, of the trimmed texts. -/
structure Shaped (l : Language) (w : Wire) : Prop where
  type : ∀ v, w.type = some v → ∃ type, FeedbackType.name type = v
  subject : ∃ v, w.subject = some v ∧ trim l.blank v ≠ []
  body : ∃ v, w.body = some v ∧ trim l.blank v ≠ []
  email : ∀ v, w.email = some v → EmailShape (trim l.blank v)
  sourcePath : ∀ v, w.sourcePath = some v →
    LocalPath (trim l.blank v) ∨ (l.blankIsRoot ∧ trim l.blank v = [])
  consent : (w.email.map (trim l.blank)).getD [] = [] ∨ w.contactConsent.getD false = true

/-- The rules of a language for a submission. -/
structure Rules (l : Language) (w : Wire) : Prop where
  measured : Measured l w
  shaped : Shaped l w

/-- Both languages trim every text of the body alike. -/
def PlainEnds (w : Wire) : Prop :=
  ∀ v, some v ∈ [w.subject, w.body, w.email, w.sourcePath] → EndsPlain v

/-- A path that is given has something to be seen. -/
def PathShown (w : Wire) : Prop := ∀ v, w.sourcePath = some v → ∃ c ∈ v, pyBlank c = false

/-- Both contracts accept, or neither does, and they read the same. -/
structure ContractsAgree (w : Wire) : Prop where
  accepted : (∃ p, Python.feedbackRequest w = .ok p) ↔ ∃ p, TypeScript.feedbackRequest w = .ok p
  decoded : ∀ p q, Python.feedbackRequest w = .ok p → TypeScript.feedbackRequest w = .ok q →
    p.details = q.details

/-- What a language reads in a body that keeps its rules. -/
def decoded (l : Language) (w : Wire) : Payload FeedbackRequest where
  honeypot := w.honeypot.getD []
  turnstileToken := w.turnstileToken.getD []
  details :=
    { type := (w.type.map fun v => (feedbackTypes.find? (·.name == v)).getD .general).getD .general
      subject := (w.subject.map (trim l.blank)).getD []
      body := (w.body.map (trim l.blank)).getD []
      email := (w.email.map (trim l.blank)).getD []
      sourcePath := (w.sourcePath.map fun v => if trim l.blank v = [] then lit "/"
        else trim l.blank v).getD (lit "/")
      contactConsent := w.contactConsent.getD false }

section
variable {α : Type} {w : Wire}

theorem required_ok {read : Text → Except Fault α} {good : Text → Prop} {value : Text → α}
    (meaning : ∀ v a, read v = .ok a ↔ good v ∧ a = value v) (o : Option Text) (a d : α) :
    required read o = .ok a ↔ (∃ v, o = some v ∧ good v) ∧ a = (o.map value).getD d := by
  cases o with
  | none => simp [required]
  | some v => simp [required, meaning]

theorem defaulted_ok {read : Text → Except Fault α} {good : Text → Prop} {value : Text → α}
    (meaning : ∀ v a, read v = .ok a ↔ good v ∧ a = value v) (o : Option Text) (a d : α) :
    defaulted d read o = .ok a ↔ (∀ v, o = some v → good v) ∧ a = (o.map value).getD d := by
  cases o with
  | none =>
    simp only [defaulted, Except.ok.injEq, reduceCtorEq, false_implies, implies_true, true_and,
      Option.map_none,
      Option.getD_none]
    exact eq_comm
  | some v => simp [defaulted, meaning]

theorem readType_ok (v : Text) (type : FeedbackType) : readType v = .ok type ↔
    (∃ type, FeedbackType.name type = v) ∧
      type = (feedbackTypes.find? (·.name == v)).getD .general := by
  have listed : ∀ type, type ∈ feedbackTypes := by
    intro type
    cases type <;> decide
  rw [readType]
  cases found : feedbackTypes.find? (·.name == v) with
  | none =>
    refine iff_of_false nofun ?_
    rintro ⟨⟨type, rfl⟩, -⟩
    have unlisted := List.find?_eq_none.mp found type (listed type)
    exact unlisted (beq_self_eq_true _)
  | some first =>
    have held := List.find?_some found
    have same : first.name = v := by simpa using held
    simp only [Except.ok.injEq, Option.getD_some]
    exact ⟨fun chosen => ⟨⟨first, same⟩, chosen.symm⟩, fun chosen => chosen.2.symm⟩

theorem Fields.collect_ok {f : Fields} {p : Payload FeedbackRequest} : f.collect = .ok p ↔
    f.type = .ok p.details.type ∧ f.subject = .ok p.details.subject ∧ f.body = .ok p.details.body ∧
      f.email = .ok p.details.email ∧ f.sourcePath = .ok p.details.sourcePath ∧
      f.contactConsent = p.details.contactConsent ∧ f.honeypot = .ok p.honeypot ∧
      f.turnstileToken = .ok p.turnstileToken := by
  have kept : ∀ x : Except Fault (Payload FeedbackRequest), Except.mapError (fun _ => f.issues) x =
      .ok p ↔ x = .ok p := by
    intro x
    cases x <;> simp [Except.mapError]
  rw [Fields.collect, kept]
  simp only [bind_ok, pure_ok]
  constructor
  · rintro ⟨type, isType, subject, isSubject, body, isBody, email, isEmail, path, isPath, honeypot,
      isHoneypot, token,
      isToken, rfl⟩
    exact ⟨isType, isSubject, isBody, isEmail, isPath, rfl, isHoneypot, isToken⟩
  · rintro ⟨isType, isSubject, isBody, isEmail, isPath, consent, isHoneypot, isToken⟩
    exact ⟨_, isType, _, isSubject, _, isBody, _, isEmail, _, isPath, _, isHoneypot, _,
      isToken, by rw [consent]⟩

theorem contactRequiresConsent_ok {p q : Payload FeedbackRequest} :
    contactRequiresConsent p = .ok q ↔
    (p.details.email = [] ∨ p.details.contactConsent = true) ∧ p = q := by
  rw [contactRequiresConsent]
  split
  · rename_i given
    simp [given]
  · rename_i refused
    exact iff_of_false nofun fun both => refused both.1

theorem refuseControlChars_ok {allow : List ℕ} {v a : Text} :
    refuseControlChars allow v = .ok a ↔ hasControlChar allow v = false ∧ v = a := by
  rw [refuseControlChars]
  split <;> simp_all

theorem length_pos {v : Text} : 1 ≤ TypeScript.length v ↔ v ≠ [] := by
  cases v with
  | nil => decide
  | cons c rest =>
    have some_unit : 1 ≤ (JsJson.units c).length := by
      rw [JsJson.units]
      split <;> simp
    simp only [TypeScript.length, JsJson.utf16, List.flatMap_cons, List.length_append, ne_eq,
      reduceCtorEq,
      not_false_eq_true, iff_true]
    omega

theorem str_ok {least most : ℕ} {v a : Text} : Python.str least most v = .ok a ↔
    v.all scalar = true ∧ least ≤ v.length ∧ v.length ≤ most ∧ v = a := by
  simp only [Python.str, bind_ok, ensure_ok, pure_ok, exists_and_left, exists_const]

theorem python_line_ok {least most : ℕ} {v a : Text} :
    (Python.str least most v >>= Python.singleLine) = .ok a ↔
    (least ≤ v.length ∧ python.fits most nothingAllowed v) ∧ a = trim pyBlank v := by
  simp only [Python.singleLine, bind_ok, str_ok, refuseControlChars_ok, pure_ok, python]
  constructor
  · rintro ⟨_, ⟨whole, long, short, rfl⟩, _, ⟨plain, rfl⟩, rfl⟩
    exact ⟨⟨long, whole, short, plain⟩, rfl⟩
  · rintro ⟨⟨long, whole, short, plain⟩, rfl⟩
    exact ⟨v, ⟨whole, long, short, rfl⟩, v, ⟨plain, rfl⟩, rfl⟩

theorem python_checked_ok {least most : ℕ} {check : Text → Except Fault Text} {good : Prop}
    {v a value : Text}
    (checked : check (trim pyBlank v) = .ok a ↔ good ∧ a = value) :
    (Python.str least most v >>= Python.singleLine >>= check) = .ok a ↔
      ((least ≤ v.length ∧ python.fits most nothingAllowed v) ∧ good) ∧ a = value := by
  rw [bind_ok]
  simp only [python_line_ok]
  constructor
  · rintro ⟨_, ⟨fits, rfl⟩, sound⟩
    exact ⟨⟨fits, (checked.mp sound).1⟩, (checked.mp sound).2⟩
  · rintro ⟨⟨fits, sound⟩, same⟩
    exact ⟨_, ⟨fits, rfl⟩, checked.mpr ⟨sound, same⟩⟩

theorem one_le_of_trim {blank : ℕ → Bool} {v : Text} (visible : trim blank v ≠ []) :
    1 ≤ v.length := by
  rw [Nat.one_le_iff_ne_zero, ne_eq, List.length_eq_zero_iff]
  rintro rfl
  exact visible rfl

theorem python_subject_ok (v a : Text) :
    (Python.str 1 255 v >>= Python.singleLine >>= Python.subjectHasVisibleText) = .ok a ↔
      (python.fits 255 nothingAllowed v ∧ trim pyBlank v ≠ []) ∧ a = trim pyBlank v := by
  have checked : Python.subjectHasVisibleText (trim pyBlank v) = .ok a ↔
      trim pyBlank v ≠ [] ∧ a = trim pyBlank v := by
    rw [Python.subjectHasVisibleText]
    split
    · rename_i empty
      exact iff_of_false nofun fun both => both.1 empty
    · rename_i visible
      rw [and_iff_right visible, Except.ok.injEq, eq_comm]
  rw [python_checked_ok checked]
  refine and_congr_left fun _ => and_congr_left fun visible => ?_
  exact and_iff_right (one_le_of_trim visible)

theorem python_email_ok (v a : Text) :
    (Python.str 0 255 v >>= Python.singleLine >>= Python.emailRequiresBasicShape) = .ok a ↔
      (python.fits 255 nothingAllowed v ∧ EmailShape (trim pyBlank v)) ∧ a = trim pyBlank v := by
  have again : trim pyBlank (trim pyBlank v) = trim pyBlank v := trim_trim (fun _ blank => blank) v
  have checked : Python.emailRequiresBasicShape (trim pyBlank v) = .ok a ↔
      EmailShape (trim pyBlank v) ∧ a = trim pyBlank v := by
    rw [Python.emailRequiresBasicShape, again, EmailShape]
    split
    · rename_i refused
      refine iff_of_false nofun ?_
      rintro ⟨empty | ⟨has, notFirst, notLast⟩, -⟩
      · exact refused.1 empty
      · exact refused.2.elim (fun lacks => lacks has) fun ends => ends.elim notFirst notLast
    · rename_i sound
      rw [not_and_or, not_not, not_or, not_or, not_not] at sound
      rw [and_iff_right sound, Except.ok.injEq, eq_comm]
  rw [python_checked_ok checked, and_iff_right (Nat.zero_le _)]

theorem python_path_ok (v a : Text) :
    (Python.str 0 500 v >>= Python.singleLine >>= Python.sourceIsLocalPath) = .ok a ↔
      (python.fits 500 nothingAllowed v ∧
        (LocalPath (trim pyBlank v) ∨ (python.blankIsRoot ∧ trim pyBlank v = []))) ∧
        a = if trim pyBlank v = [] then lit "/" else trim pyBlank v := by
  have again : trim pyBlank (trim pyBlank v) = trim pyBlank v := trim_trim (fun _ blank => blank) v
  have root : python.blankIsRoot := trivial
  have checked : Python.sourceIsLocalPath (trim pyBlank v) = .ok a ↔
      (LocalPath (trim pyBlank v) ∨ (python.blankIsRoot ∧ trim pyBlank v = [])) ∧
        a = if trim pyBlank v = [] then lit "/" else trim pyBlank v := by
    rw [Python.sourceIsLocalPath, again, and_iff_right root]
    by_cases blank : trim pyBlank v = []
    · have local_ : ¬ (¬ lit "/" <+: lit "/" ∨ lit "//" <+: lit "/") := by decide
      rw [if_pos blank, if_neg local_, and_iff_right (.inr blank), Except.ok.injEq, eq_comm]
    · rw [if_neg blank, or_iff_left blank, LocalPath]
      split
      · rename_i refused
        refine iff_of_false nofun ?_
        rintro ⟨⟨rooted, single⟩, -⟩
        exact refused.elim (fun lacks => lacks rooted) single
      · rename_i sound
        rw [not_or, not_not] at sound
        rw [and_iff_right sound, Except.ok.injEq, eq_comm]
  rw [python_checked_ok checked, and_iff_right (Nat.zero_le _)]

theorem python_body_ok (v a : Text) : (Python.str 1 5000 v >>= Python.bodyCtrl) = .ok a ↔
    (python.fits 5000 whitespaceAllowed v ∧ trim pyBlank v ≠ []) ∧ a = trim pyBlank v := by
  simp only [Python.bodyCtrl, bind_ok, str_ok, refuseControlChars_ok, ensure_ok, pure_ok, python]
  constructor
  · rintro ⟨_, ⟨whole, -, short, rfl⟩, _, ⟨plain, rfl⟩, _, visible, rfl⟩
    exact ⟨⟨⟨whole, short, plain⟩, visible⟩, rfl⟩
  · rintro ⟨⟨⟨whole, short, plain⟩, visible⟩, rfl⟩
    exact ⟨v, ⟨whole, one_le_of_trim visible, short, rfl⟩, v, ⟨plain, rfl⟩, (), visible, rfl⟩

theorem minLength_ok {least : ℕ} {message : String} {v a : Text} :
    TypeScript.minLength least message v = .ok a ↔ least ≤ TypeScript.length v ∧ v = a := by
  rw [TypeScript.minLength]
  split <;> simp_all

theorem maxLength_ok {most : ℕ} {v a : Text} :
    TypeScript.maxLength most v = .ok a ↔ TypeScript.length v ≤ most ∧ v = a := by
  rw [TypeScript.maxLength]
  split <;> simp_all

/-- A required text, on one line or on several. -/
theorem typeScript_visible_ok (allow : List ℕ) (most : ℕ) (message : String) (v a : Text) :
    (refuseControlChars allow (trim jsBlank v) >>= TypeScript.minLength 1 message >>=
      TypeScript.maxLength most) = .ok a ↔
      (typeScript.fits most allow v ∧ trim jsBlank v ≠ []) ∧ a = trim jsBlank v := by
  simp only [bind_ok, refuseControlChars_ok, minLength_ok, maxLength_ok, length_pos, typeScript]
  constructor
  · rintro ⟨_, ⟨_, ⟨plain, rfl⟩, visible, rfl⟩, short, rfl⟩
    exact ⟨⟨⟨short, plain⟩, visible⟩, rfl⟩
  · rintro ⟨⟨⟨short, plain⟩, visible⟩, rfl⟩
    exact ⟨_, ⟨_, ⟨plain, rfl⟩, visible, rfl⟩, short, rfl⟩

theorem typeScript_checked_ok {most : ℕ} {check : Text → Except Fault Text} {good : Prop}
    {v a : Text}
    (checked : check (trim jsBlank v) = .ok a ↔ good ∧ a = trim jsBlank v) :
    (TypeScript.noControlChars v >>= TypeScript.maxLength most >>= check) = .ok a ↔
      (typeScript.fits most nothingAllowed v ∧ good) ∧ a = trim jsBlank v := by
  rw [bind_ok]
  simp only [TypeScript.noControlChars, bind_ok, refuseControlChars_ok, maxLength_ok, typeScript]
  constructor
  · rintro ⟨_, ⟨_, ⟨plain, rfl⟩, short, rfl⟩, sound⟩
    exact ⟨⟨⟨short, plain⟩, (checked.mp sound).1⟩, (checked.mp sound).2⟩
  · rintro ⟨⟨⟨short, plain⟩, sound⟩, same⟩
    exact ⟨_, ⟨_, ⟨plain, rfl⟩, short, rfl⟩, checked.mpr ⟨sound, same⟩⟩

theorem emailFilter_ok {v a : Text} : TypeScript.emailFilter v = .ok a ↔ EmailShape v ∧ a = v := by
  rw [TypeScript.emailFilter]
  split <;> simp_all [eq_comm]

theorem pathFilter_ok {v a : Text} : TypeScript.pathFilter v = .ok a ↔ LocalPath v ∧ a = v := by
  rw [TypeScript.pathFilter]
  split <;> simp_all [eq_comm]

theorem typeScript_path_ok (v a : Text) :
    (TypeScript.noControlChars v >>= TypeScript.maxLength 500 >>= TypeScript.pathFilter) = .ok a ↔
      (typeScript.fits 500 nothingAllowed v ∧
        (LocalPath (trim jsBlank v) ∨ (typeScript.blankIsRoot ∧ trim jsBlank v = []))) ∧
        a = if trim jsBlank v = [] then lit "/" else trim jsBlank v := by
  have never : ¬ LocalPath [] := by decide
  have strict : LocalPath (trim jsBlank v) ∨ (typeScript.blankIsRoot ∧ trim jsBlank v = []) ↔
      LocalPath (trim jsBlank v) := or_iff_left fun both => both.1
  rw [typeScript_checked_ok pathFilter_ok, strict]
  refine and_congr_right fun both => ?_
  rw [if_neg]
  intro blank
  rw [blank] at both
  exact never both.2

/-- The fields of a body as a language reads them. -/
structure Reads (l : Language) (w : Wire) (f : Fields) : Prop where
  type : f.type = defaulted .general readType w.type
  subject : ∀ a, f.subject = .ok a ↔
    (∃ v, w.subject = some v ∧ l.fits 255 nothingAllowed v ∧ trim l.blank v ≠ []) ∧
      a = (decoded l w).details.subject
  body : ∀ a, f.body = .ok a ↔
    (∃ v, w.body = some v ∧ l.fits 5000 whitespaceAllowed v ∧ trim l.blank v ≠ []) ∧
      a = (decoded l w).details.body
  email : ∀ a, f.email = .ok a ↔
    (∀ v, w.email = some v → l.fits 255 nothingAllowed v ∧ EmailShape (trim l.blank v)) ∧
      a = (decoded l w).details.email
  sourcePath : ∀ a, f.sourcePath = .ok a ↔
    (∀ v, w.sourcePath = some v → l.fits 500 nothingAllowed v ∧
      (LocalPath (trim l.blank v) ∨ (l.blankIsRoot ∧ trim l.blank v = []))) ∧
        a = (decoded l w).details.sourcePath
  consent : f.contactConsent = w.contactConsent.getD false
  honeypot : ∀ a, f.honeypot = .ok a ↔ (∀ v, w.honeypot = some v → l.short 255 v) ∧
    a = w.honeypot.getD []
  turnstileToken : ∀ a, f.turnstileToken = .ok a ↔
    (∀ v, w.turnstileToken = some v → l.short 4096 v) ∧ a = w.turnstileToken.getD []

/-- A field that is kept as it came. -/
theorem defaulted_self_ok {read : Text → Except Fault Text} {good : Text → Prop}
    (meaning : ∀ v a, read v = .ok a ↔ good v ∧ v = a) (o : Option Text) (a : Text) :
    defaulted [] read o = .ok a ↔ (∀ v, o = some v → good v) ∧ a = o.getD [] := by
  have kept : ∀ v a, read v = .ok a ↔ good v ∧ a = id v := by
    intro v a
    rw [meaning, id, eq_comm]
  rw [defaulted_ok kept, Option.map_id, id]

theorem python_short_ok (most : ℕ) (v a : Text) : Python.str 0 most v = .ok a ↔
    python.short most v ∧ v = a := by
  rw [str_ok, and_iff_right (Nat.zero_le _), ← and_assoc]
  exact Iff.rfl

theorem python_reads (w : Wire) : Reads python w (Python.fields w) where
  type := rfl
  subject a := required_ok python_subject_ok w.subject a []
  body a := required_ok python_body_ok w.body a []
  email a := defaulted_ok python_email_ok w.email a []
  sourcePath a := defaulted_ok python_path_ok w.sourcePath a (lit "/")
  consent := rfl
  honeypot := defaulted_self_ok (python_short_ok 255) w.honeypot
  turnstileToken := defaulted_self_ok (python_short_ok 4096) w.turnstileToken

theorem typeScript_reads (w : Wire) : Reads typeScript w (TypeScript.fields w) where
  type := rfl
  subject a := required_ok
    (typeScript_visible_ok nothingAllowed 255 "subject must contain visible text") w.subject a []
  body a := required_ok
    (typeScript_visible_ok whitespaceAllowed 5000 "body must contain visible text") w.body a []
  email a := defaulted_ok (fun _ _ => typeScript_checked_ok emailFilter_ok) w.email a []
  sourcePath a := defaulted_ok typeScript_path_ok w.sourcePath a (lit "/")
  consent := rfl
  honeypot := defaulted_self_ok (fun _ _ => maxLength_ok) w.honeypot
  turnstileToken := defaulted_self_ok (fun _ _ => maxLength_ok) w.turnstileToken

theorem type_ok (l : Language) (w : Wire) (type : FeedbackType) :
    defaulted .general readType w.type = .ok type ↔
    (∀ v, w.type = some v → ∃ type, FeedbackType.name type = v) ∧
      type = (decoded l w).details.type :=
  defaulted_ok readType_ok w.type type .general

theorem Reads.request_ok {l : Language} {f : Fields} (reads : Reads l w f)
    {p : Payload FeedbackRequest} :
    (f.collect >>= contactRequiresConsent) = .ok p ↔ Rules l w ∧ p = decoded l w := by
  rw [bind_ok]
  simp only [Fields.collect_ok, contactRequiresConsent_ok, reads.type, type_ok l, reads.subject,
    reads.body, reads.email,
    reads.sourcePath, reads.consent, reads.honeypot, reads.turnstileToken]
  constructor
  · rintro ⟨q, ⟨⟨type, isType⟩, ⟨⟨s, isSubject, fitsSubject, shownSubject⟩, subject⟩,
      ⟨⟨b, isBody, fitsBody, shownBody⟩, body⟩, ⟨emails, email⟩, ⟨paths, path⟩, consent,
        ⟨pots, pot⟩, tokens, token⟩,
      agreed, rfl⟩
    refine ⟨⟨⟨?_, ?_, fun v given => (emails v given).1, fun v given => (paths v given).1,
      pots, tokens⟩,
      ⟨type, ⟨s, isSubject, shownSubject⟩, ⟨b, isBody, shownBody⟩, fun v given =>
        (emails v given).2,
        fun v given => (paths v given).2, ?_⟩⟩, ?_⟩
    · intro v given
      cases isSubject.symm.trans given
      exact fitsSubject
    · intro v given
      cases isBody.symm.trans given
      exact fitsBody
    · rw [email, ← consent] at agreed
      exact agreed
    · obtain ⟨_, _, _, _, _, _, _, _⟩ := q
      dsimp only at isType subject body email path consent pot token
      subst isType subject body email path consent pot token
      rfl
  · rintro ⟨⟨measured, shaped⟩, rfl⟩
    obtain ⟨s, isSubject, shownSubject⟩ := shaped.subject
    obtain ⟨b, isBody, shownBody⟩ := shaped.body
    refine ⟨_, ⟨⟨shaped.type, rfl⟩,
      ⟨⟨s, isSubject, measured.subject s isSubject, shownSubject⟩, rfl⟩,
      ⟨⟨b, isBody, measured.body b isBody, shownBody⟩, rfl⟩,
        ⟨fun v given => ⟨measured.email v given, shaped.email v given⟩, rfl⟩,
      ⟨fun v given => ⟨measured.sourcePath v given, shaped.sourcePath v given⟩, rfl⟩, rfl,
        ⟨measured.honeypot, rfl⟩,
      measured.turnstileToken, rfl⟩, shaped.consent, rfl⟩

theorem python_ok {p : Payload FeedbackRequest} :
    Python.feedbackRequest w = .ok p ↔ Rules python w ∧ p = decoded python w :=
  (python_reads w).request_ok

theorem typeScript_ok {p : Payload FeedbackRequest} :
    TypeScript.feedbackRequest w = .ok p ↔ Rules typeScript w ∧ p = decoded typeScript w :=
  (typeScript_reads w).request_ok

theorem contractsAgree_iff : ContractsAgree w ↔ (Rules python w ↔ Rules typeScript w) ∧
    (Rules python w → Rules typeScript w →
      (decoded python w).details = (decoded typeScript w).details) := by
  have accepts : (∃ p, Python.feedbackRequest w = .ok p) ↔ Rules python w := by
    simp only [python_ok, exists_and_left, exists_eq, and_true]
  have accepts' : (∃ p, TypeScript.feedbackRequest w = .ok p) ↔ Rules typeScript w := by
    simp only [typeScript_ok, exists_and_left, exists_eq, and_true]
  constructor
  · intro agree
    refine ⟨accepts.symm.trans (agree.accepted.trans accepts'), fun rules rules' => ?_⟩
    exact agree.decoded _ _ (python_ok.mpr ⟨rules, rfl⟩) (typeScript_ok.mpr ⟨rules', rfl⟩)
  · rintro ⟨same, read⟩
    refine ⟨accepts.trans (same.trans accepts'.symm), fun p q first second => ?_⟩
    obtain ⟨rules, rfl⟩ := python_ok.mp first
    obtain ⟨rules', rfl⟩ := typeScript_ok.mp second
    exact read rules rules'

/-- A body that a language accepts keeps the rules of another one that measures it, if both trim it
alike. -/
theorem Rules.carry {l other : Language} (rules : Rules l w) (measured : Measured other w)
    (same : ∀ v, some v ∈ [w.subject, w.body, w.email, w.sourcePath] →
      trim l.blank v = trim other.blank v)
    (rooted : ∀ v, w.sourcePath = some v → LocalPath (trim l.blank v) ∨ other.blankIsRoot) :
    Rules other w ∧ decoded l w = decoded other w := by
  have mapped : ∀ o ∈ [w.subject, w.body, w.email, w.sourcePath], o.map (trim l.blank) = o.map
      (trim other.blank) := by
    intro o listed
    cases o with
    | none => rfl
    | some v => exact congrArg some (same v listed)
  have subject : w.subject.map (trim l.blank) = w.subject.map (trim other.blank) :=
    mapped _ (by simp)
  have body : w.body.map (trim l.blank) = w.body.map (trim other.blank) := mapped _ (by simp)
  have email : w.email.map (trim l.blank) = w.email.map (trim other.blank) := mapped _ (by simp)
  have path : ∀ v, w.sourcePath = some v → trim l.blank v = trim other.blank v := by
    intro v given
    exact same v (by simp [given])
  obtain ⟨-, shaped⟩ := rules
  refine ⟨⟨measured, shaped.type, ?_, ?_, ?_, ?_, ?_⟩, ?_⟩
  · obtain ⟨v, given, visible⟩ := shaped.subject
    exact ⟨v, given, same v (by simp [given]) ▸ visible⟩
  · obtain ⟨v, given, visible⟩ := shaped.body
    exact ⟨v, given, same v (by simp [given]) ▸ visible⟩
  · intro v given
    exact same v (by simp [given]) ▸ shaped.email v given
  · intro v given
    rw [← path v given]
    rcases shaped.sourcePath v given with there | ⟨-, blank⟩
    · exact .inl there
    · exact (rooted v given).imp id fun root => ⟨root, blank⟩
  · rw [← email]
    exact shaped.consent
  · have paths : w.sourcePath.map (fun v => if trim l.blank v = [] then lit "/"
        else trim l.blank v) =
        w.sourcePath.map fun v => if trim other.blank v = [] then lit "/"
          else trim other.blank v := by
      refine Option.map_congr fun v given => ?_
      rw [path v given]
    rw [decoded, decoded, subject, body, email, paths]

theorem shown_of_local {blank : ℕ → Bool} {v : Text} (there : LocalPath (trim blank v)) :
    ∃ c ∈ v, pyBlank c = false := by
  obtain ⟨rest, split⟩ := there.1
  have slash : 47 ∈ trim blank v := by
    rw [← split]
    exact List.mem_cons_self
  exact ⟨47, mem_trim slash, by decide⟩

theorem trim_ne_nil {blank : ℕ → Bool} {v : Text} : trim blank v ≠ [] ↔
    ∃ c ∈ v, blank c = false := by
  rw [ne_eq, trim_eq_nil_iff]
  simp

theorem plainEnds_of_decoded (rules : Rules typeScript w)
    (same : (decoded python w).details = (decoded typeScript w).details) : PlainEnds w := by
  intro v listed
  rw [← trims_agree_iff]
  change trim python.blank v = trim typeScript.blank v
  simp only [List.mem_cons, List.not_mem_nil, or_false] at listed
  rcases listed with given | given | given | given
  · have read := congrArg FeedbackRequest.subject same
    simpa [decoded, ← given] using read
  · have read := congrArg FeedbackRequest.body same
    simpa [decoded, ← given] using read
  · have read := congrArg FeedbackRequest.email same
    simpa [decoded, ← given] using read
  · have read := congrArg FeedbackRequest.sourcePath same
    have there : LocalPath (trim typeScript.blank v) :=
      (rules.shaped.sourcePath v given.symm).elim id fun both => both.1.elim
    have visible : trim python.blank v ≠ [] := trim_ne_nil.mpr (shown_of_local there)
    have visible' : trim typeScript.blank v ≠ [] := by
      intro blank
      rw [blank] at there
      exact absurd there (by decide)
    simp only [decoded, ← given, Option.map_some, Option.getD_some] at read
    rwa [if_neg visible, if_neg visible'] at read

end

/-- The port accepts what Python accepts, and reads it as Python does, except that it counts code
units and lets no blank path stand for the root; and it lets pass what is only trimmed away before
it looks. -/
theorem contracts_agree_iff (w : Wire) : ContractsAgree w ↔
    (Rules python w → Measured typeScript w ∧ PlainEnds w ∧ PathShown w) ∧
      (Rules typeScript w → Measured python w ∧ PlainEnds w) := by
  rw [contractsAgree_iff]
  constructor
  · rintro ⟨accepted, read⟩
    constructor
    · intro rules
      have rules' := accepted.mp rules
      refine ⟨rules'.measured, plainEnds_of_decoded rules' (read rules rules'), fun v given => ?_⟩
      exact (rules'.shaped.sourcePath v given).elim shown_of_local fun both => both.1.elim
    · intro rules'
      have rules := accepted.mpr rules'
      exact ⟨rules.measured, plainEnds_of_decoded rules' (read rules rules')⟩
  · rintro ⟨outward, inward⟩
    have alike : PlainEnds w → ∀ v, some v ∈ [w.subject, w.body, w.email, w.sourcePath] →
        trim pyBlank v = trim jsBlank v := fun plain v listed =>
          (trims_agree_iff v).mpr (plain v listed)
    have out : Rules python w → Rules typeScript w ∧ decoded python w = decoded typeScript w := by
      intro rules
      obtain ⟨measured, plain, shown⟩ := outward rules
      refine rules.carry measured (alike plain) fun v given => ?_
      have visible := trim_ne_nil.mpr (shown v given)
      exact .inl ((rules.shaped.sourcePath v given).elim id fun both => absurd both.2 visible)
    have back : Rules typeScript w → Rules python w := by
      intro rules
      obtain ⟨measured, plain⟩ := inward rules
      exact (rules.carry measured (fun v listed => (alike plain v listed).symm) fun _ _ =>
        .inr trivial).1
    exact ⟨⟨fun rules => (out rules).1, back⟩, fun rules _ => by rw [(out rules).2]⟩

/-- A line break before the subject. -/
theorem broken_subject_passes :
    ¬ ContractsAgree { subject := some (lit "\nhi"), body := some (lit "hello") } := by
  intro agree
  have passes : ∃ p, TypeScript.feedbackRequest
      { subject := some (lit "\nhi"), body := some (lit "hello") } = .ok p :=
    ⟨_, rfl⟩
  obtain ⟨p, accepted⟩ := agree.accepted.mpr passes
  cases accepted

end Metahumotonic.Feedback
