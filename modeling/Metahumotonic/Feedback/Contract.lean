import Metahumotonic.Feedback.Stores
import Metahumotonic.Feedback.Submission
import Metahumotonic.Library.Blank
import Metahumotonic.Library.Checks
import Metahumotonic.Library.JsJson
import Mathlib.Data.List.Infix

/-! The body of `POST /api/feedback` in both services: `FeedbackRequest` of `app/contracts.py` and
of `ts/src/domain/Contracts.ts`. A text is the list of its code points, lone surrogates included. -/
namespace Metahumotonic.Feedback

open Library Fallback

/-- A JSON object whose fields have the declared types where they are there. -/
structure Wire where
  type : Option Text := none
  subject : Option Text := none
  body : Option Text := none
  email : Option Text := none
  sourcePath : Option Text := none
  contactConsent : Option Bool := none
  honeypot : Option Text := none
  turnstileToken : Option Text := none
  deriving DecidableEq, Repr

inductive Fault where
  | missing
  | notListed
  | notUnicode
  | tooShort (min : ℕ)
  | tooLong (max : ℕ)
  | message (text : String)
  deriving DecidableEq, Repr

/-- A fault under the path of its field; the path of the whole body is empty. -/
structure Issue where
  path : String
  fault : Fault
  deriving DecidableEq, Repr

def FeedbackType.name : FeedbackType → Text
  | .general => lit "general"
  | .bug => lit "bug"
  | .feature => lit "feature"
  | .thesis => lit "thesis"
  | .compute => lit "compute"
  | .collaboration => lit "collaboration"

def feedbackTypes : List FeedbackType :=
  [.general, .bug, .feature, .thesis, .compute, .collaboration]

def readType (v : Text) : Except Fault FeedbackType :=
  match feedbackTypes.find? (·.name == v) with
  | some type => .ok type
  | none => .error .notListed

/-- A field that must be there. -/
def required {α : Type} (read : Text → Except Fault α) : Option Text → Except Fault α
  | none => .error .missing
  | some v => read v

/-- A field with a default, which is not checked. -/
def defaulted {α : Type} (value : α) (read : Text → Except Fault α) : Option Text → Except Fault α
  | none => .ok value
  | some v => read v

/-- What came of each field. -/
structure Fields where
  type : Except Fault FeedbackType
  subject : Except Fault Text
  body : Except Fault Text
  email : Except Fault Text
  sourcePath : Except Fault Text
  contactConsent : Bool
  honeypot : Except Fault Text
  turnstileToken : Except Fault Text

def issue {α : Type} (path : String) : Except Fault α → List Issue
  | .ok _ => []
  | .error fault => [⟨path, fault⟩]

def Fields.issues (f : Fields) : List Issue :=
  issue "type" f.type ++ issue "subject" f.subject ++ issue "body" f.body ++
    issue "email" f.email ++
    issue "source_path" f.sourcePath ++ issue "honeypot" f.honeypot ++ issue "turnstile_token"
      f.turnstileToken

/-- The request, or every issue of a field. -/
def Fields.collect (f : Fields) : Except (List Issue) (Payload FeedbackRequest) :=
  Except.mapError (fun _ => f.issues) do
    let type ← f.type
    let subject ← f.subject
    let body ← f.body
    let email ← f.email
    let sourcePath ← f.sourcePath
    let honeypot ← f.honeypot
    let turnstileToken ← f.turnstileToken
    return ⟨honeypot, turnstileToken, ⟨type, subject, body, email, sourcePath, f.contactConsent⟩⟩

/-- `_contact_requires_consent`, and the filter of the whole struct: made when every field is sound.
-/
def contactRequiresConsent (p : Payload FeedbackRequest) : Except (List Issue)
    (Payload FeedbackRequest) :=
  if p.details.email = [] ∨ p.details.contactConsent then .ok p
  else .error [⟨"", .message "contact_consent is required when email is provided"⟩]

def hasControlChar (allow : List ℕ) (v : Text) : Bool := v.any fun c => decide
    (c < 32) && !allow.contains c

def nothingAllowed : List ℕ := []
def whitespaceAllowed : List ℕ := [10, 13, 9]

def refuseControlChars (allow : List ℕ) (v : Text) : Except Fault Text :=
  if hasControlChar allow v then .error (.message "control characters are not allowed") else .ok v

def EmailShape (v : Text) : Prop := v = [] ∨ (lit "@" <:+: v ∧ ¬ lit "@" <+: v ∧ ¬ lit "@" <:+ v)

instance (v : Text) : Decidable (EmailShape v) := inferInstanceAs (Decidable (_ ∨ _))

def LocalPath (v : Text) : Prop := lit "/" <+: v ∧ ¬ lit "//" <+: v

instance (v : Text) : Decidable (LocalPath v) := inferInstanceAs (Decidable (_ ∧ _))

def scalar (c : ℕ) : Bool := c < 0xD800 || 0xDFFF < c

namespace Python

/-- `Field(min_length, max_length)`. A text is taken for Unicode before it is measured. -/
def str (minLength maxLength : ℕ) (v : Text) : Except Fault Text := do
  ensure (v.all scalar = true) .notUnicode
  ensure (minLength ≤ v.length) (.tooShort minLength)
  ensure (v.length ≤ maxLength) (.tooLong maxLength)
  return v

def singleLine (v : Text) : Except Fault Text := do
  let line ← refuseControlChars nothingAllowed v
  return trim pyBlank line

def subjectHasVisibleText (v : Text) : Except Fault Text :=
  if v = [] then .error (.message "subject must contain visible text") else .ok v

def emailRequiresBasicShape (v : Text) : Except Fault Text :=
  let value := trim pyBlank v
  if value ≠ [] ∧ (¬ lit "@" <:+: value ∨ lit "@" <+: value ∨ lit "@" <:+ value) then
    .error (.message "invalid email address")
  else .ok value

def sourceIsLocalPath (v : Text) : Except Fault Text :=
  let value := if trim pyBlank v = [] then lit "/" else trim pyBlank v
  if ¬ lit "/" <+: value ∨ lit "//" <+: value
    then .error (.message "source_path must be a local absolute path")
  else .ok value

def bodyCtrl (v : Text) : Except Fault Text := do
  let text ← refuseControlChars whitespaceAllowed v
  ensure (trim pyBlank text ≠ []) (.message "body must contain visible text")
  return trim pyBlank text

def fields (w : Wire) : Fields where
  type := defaulted .general readType w.type
  subject := required (fun v => str 1 255 v >>= singleLine >>= subjectHasVisibleText) w.subject
  body := required (fun v => str 1 5000 v >>= bodyCtrl) w.body
  email := defaulted [] (fun v => str 0 255 v >>= singleLine >>= emailRequiresBasicShape) w.email
  sourcePath := defaulted (lit "/") (fun v => str 0 500 v >>= singleLine >>= sourceIsLocalPath)
    w.sourcePath
  contactConsent := w.contactConsent.getD false
  honeypot := defaulted [] (str 0 255) w.honeypot
  turnstileToken := defaulted [] (str 0 4096) w.turnstileToken

def feedbackRequest (w : Wire) : Except (List Issue) (Payload FeedbackRequest) :=
  (fields w).collect >>= contactRequiresConsent

end Python

namespace TypeScript

def length (v : Text) : ℕ := (JsJson.utf16 v).length

def minLength (min : ℕ) (message : String) (v : Text) : Except Fault Text :=
  if min ≤ length v then .ok v else .error (.message message)

def maxLength (max : ℕ) (v : Text) : Except Fault Text :=
  if length v ≤ max then .ok v else .error (.tooLong max)

/-- The filter is applied to what `Trimmed` has made. -/
def noControlChars (v : Text) : Except Fault Text := refuseControlChars nothingAllowed
    (trim jsBlank v)

def noControlCharsMultiline (v : Text) : Except Fault Text := refuseControlChars whitespaceAllowed
    (trim jsBlank v)

def emailFilter (v : Text) : Except Fault Text :=
  if EmailShape v then .ok v else .error (.message "invalid email address")

def pathFilter (v : Text) : Except Fault Text :=
  if LocalPath v then .ok v else .error (.message "source_path must be a local absolute path")

def fields (w : Wire) : Fields where
  type := defaulted .general readType w.type
  subject := required
    (fun v => noControlChars v >>= minLength 1 "subject must contain visible text" >>=
      maxLength 255)
    w.subject
  body := required (fun v =>
    noControlCharsMultiline v >>= minLength 1 "body must contain visible text" >>=
    maxLength 5000) w.body
  email := defaulted [] (fun v => noControlChars v >>= maxLength 255 >>= emailFilter) w.email
  sourcePath := defaulted (lit "/") (fun v => noControlChars v >>= maxLength 500 >>= pathFilter)
    w.sourcePath
  contactConsent := w.contactConsent.getD false
  honeypot := defaulted [] (maxLength 255) w.honeypot
  turnstileToken := defaulted [] (maxLength 4096) w.turnstileToken

def feedbackRequest (w : Wire) : Except (List Issue) (Payload FeedbackRequest) :=
  (fields w).collect >>= contactRequiresConsent

end TypeScript

end Metahumotonic.Feedback
