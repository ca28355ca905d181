import IssueMarkdown.Rendering
import IssueMarkdown.Site
import IssueMarkdown.Web.Http

/-! # Settings

What is read from the environment: where the site is, whose credentials are used, and whether
a missing issue is an error. Blank values count as missing.
-/

namespace IssueMarkdown

/-- The variables that are looked at. -/
inductive Variable where
  | baseUrl | orgName | email | apiToken | failWhenNotFound
  | characterLimit | missingDescription | issueKey | verbose
  deriving DecidableEq, Repr

namespace Variable

def all : List Variable :=
  [baseUrl, orgName, email, apiToken, failWhenNotFound, characterLimit, missingDescription,
    issueKey, verbose]

def name : Variable → Text
  | baseUrl => "ATLASSIAN_BASE_URL".toList
  | orgName => "ATLASSIAN_ORG_NAME".toList
  | email => "ATLASSIAN_EMAIL".toList
  | apiToken => "ATLASSIAN_API_TOKEN".toList
  | failWhenNotFound => "JIRA_FAIL_WHEN_ISSUE_NOT_FOUND".toList
  | characterLimit => "JIRA_DESCRIPTION_CHARACTER_LIMIT".toList
  | missingDescription => "JIRA_MISSING_DESCRIPTION".toList
  | issueKey => "JIRA_ISSUE_KEY".toList
  | verbose => "JIRAMD_VERBOSE".toList

end Variable

abbrev Environment := Variable → Option Text

/-- The settings of a connection. -/
structure Settings where
  baseUrl : Text
  credentials : Web.Credentials
  failWhenNotFound : Bool
  deriving DecidableEq

/-- Why there are no settings. -/
inductive SettingsFault where
  | noSite
  | notSet (v : Variable)
  deriving DecidableEq, Repr

namespace SettingsFault

def message : SettingsFault → Text
  | noSite =>
    "Neither ATLASSIAN_BASE_URL nor ATLASSIAN_ORG_NAME environment variable is set".toList
  | notSet v => v.name ++ " environment variable not set".toList

end SettingsFault

/-- A flag is on only if it says so in lower case. -/
def parseFlag (raw : Text) : Bool := Text.trim raw == "true".toList

namespace Settings

/-- The value as it is, if it is not blank. -/
def require (env : Environment) (v : Variable) : Except SettingsFault Text :=
  match env v with
  | some t => if (Text.trim t).isEmpty then .error (.notSet v) else .ok t
  | none => .error (.notSet v)

def ofEnvironment (env : Environment) : Except SettingsFault Settings := do
  match resolveBaseUrl? (env .baseUrl) (env .orgName) with
  | none => throw .noSite
  | some baseUrl =>
    let email ← require env .email
    let token ← require env .apiToken
    return ⟨baseUrl, ⟨email, token⟩, ((env .failWhenNotFound).map parseFlag).getD false⟩

/-- A flag of the command line can only switch the setting on. -/
def override (s : Settings) (failWhenNotFound : Bool) : Settings :=
  { s with failWhenNotFound := s.failWhenNotFound || failWhenNotFound }

end Settings

end IssueMarkdown
