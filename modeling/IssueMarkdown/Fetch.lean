import IssueMarkdown.Failure
import IssueMarkdown.Issue.Record
import IssueMarkdown.Profile

/-! # Asking the site

Each question sends at most one request, and its answer is judged by status first and content
after. An issue that does not exist is no error unless the settings say so.
-/

namespace IssueMarkdown

open Web

/-- The outcome of a question, with the request if one was sent. -/
structure Exchange (α : Type) where
  request : Option Request
  result : Except Failure α

namespace Exchange

/-- Asks for an address and judges the response, if there is one. -/
def ask {α : Type} (tables : Tables) (c : Credentials) (address : Text) (d : Delivery)
    (judge : Response → Except Failure α) : Exchange α :=
  match Request.get? tables c address with
  | .error f => ⟨none, .error (.network f)⟩
  | .ok r =>
    match d with
    | .refused => ⟨none, .error (.network (.noAnswer r.url))⟩
    | .dropped => ⟨some r, .error (.network (.noAnswer r.url))⟩
    | .answered response => ⟨some r, judge response⟩

end Exchange

def Web.Response.report (tables : Tables) (response : Response) : Report :=
  ⟨response.status, response.shown tables⟩

/-- What a response says about an issue. -/
def judgeIssue (tables : Tables) (s : Settings) (r : Rendering) (key : Text)
    (response : Response) : Except Failure (Option Record) :=
  if response.status = 404 then
    if s.failWhenNotFound then .error (.issueNotFound key) else .ok none
  else if !response.isSuccess then .error (.badStatus .fetchIssue (response.report tables))
  else match Issue.parseBytes response.content with
    | .ok issue => .ok (some (issue.toRecord s.baseUrl r))
    | .error _ => .error (.invalidResponse .undecodable)

/-- What a response says about the user. -/
def judgeProfile (tables : Tables) (response : Response) : Except Failure Text :=
  if !response.isSuccess then .error (.badStatus .reachSite (response.report tables))
  else match Profile.parseBytes response.content with
    | .ok p =>
      match p.displayName with
      | some name => .ok name
      | none => .error (.invalidResponse .noDisplayName)
    | .error _ => .error (.invalidResponse .undecodable)

/-- Fetches an issue and renders it. -/
def fetchIssue (s : Settings) (r : Rendering) (key : Text) (d : Delivery)
    (tables : Tables := .ascii) : Exchange (Option Record) :=
  .ask tables s.credentials (apiUrl s.baseUrl (Percent.encode key)) d (judgeIssue tables s r key)

/-- Fetches the name of the user. -/
def fetchDisplayName (s : Settings) (d : Delivery) (tables : Tables := .ascii) : Exchange Text :=
  .ask tables s.credentials (profileUrl s.baseUrl) d (judgeProfile tables)

end IssueMarkdown
