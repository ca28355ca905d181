import IssueMarkdown.Settings

/-! # Failures

Why a command fails, as a cause, and the one line that tells it.
-/

namespace IssueMarkdown

open Web

/-- What a question was about, in words. -/
inductive Question where
  | fetchIssue
  | reachSite
  deriving DecidableEq, Repr

def Question.message : Question → Text
  | .fetchIssue => "Failed to fetch Jira issue".toList
  | .reachSite => "Failed to reach Jira".toList

inductive InvalidResponse where
  | undecodable
  | noDisplayName
  deriving DecidableEq, Repr

def InvalidResponse.message : InvalidResponse → Text
  | .undecodable => "error decoding response body".toList
  | .noDisplayName => "\"displayName\" is not defined".toList

/-- Where markup is read from. -/
inductive Source where
  | file (path : Text)
  | input
  deriving DecidableEq, Repr

def Source.message : Source → Text
  | .file path => path
  | .input => "stdin".toList

/-- What is told of a response. -/
structure Report where
  status : Nat
  text : Text
  deriving DecidableEq, Repr

def Report.message (r : Report) : Text := '[' :: (statusLine r.status ++ "]: ".toList ++ r.text)

/-- Why a command fails. -/
inductive Failure where
  | issueNotFound (key : Text)
  | network (fault : NetworkFault)
  | invalidResponse (fault : InvalidResponse)
  | settings (fault : SettingsFault)
  | badStatus (question : Question) (report : Report)
  | unreadable (source : Source)
  deriving DecidableEq, Repr

def Failure.message : Failure → Text
  | .issueNotFound key => "Jira issue not found: ".toList ++ key
  | .network f => "Network error: ".toList ++ f.message
  | .invalidResponse f => "Invalid response from Jira: ".toList ++ f.message
  | .settings f => "Configuration error: ".toList ++ f.message
  | .badStatus q r => q.message ++ ' ' :: r.message
  | .unreadable s => "Failed to read markup from ".toList ++ s.message

end IssueMarkdown
