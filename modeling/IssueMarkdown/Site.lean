import IssueMarkdown.Text

/-! # Site addresses

The address of a site is configured in full or by the name of an organisation. Everything
that is asked for lies below it.
-/

namespace IssueMarkdown

/-- A site address without the slashes it ends in. -/
def siteRoot (base : Text) : Text := Text.dropEndWhile (· == '/') base

/-- Where a reader finds an issue. -/
def browseUrl (base key : Text) : Text := siteRoot base ++ "/browse/".toList ++ key

/-- The fields that a request asks for. -/
def requestedFields : Text := "summary,description,issuetype".toList

/-- Where a program finds an issue; the key is encoded already. -/
def apiUrl (base key : Text) : Text :=
  siteRoot base ++ "/rest/api/2/issue/".toList ++ key ++ "?fields=".toList ++ requestedFields ++
    "&expand=renderedFields".toList

/-- Where a program finds out whose credentials it has. -/
def profileUrl (base : Text) : Text := base ++ "/rest/api/2/myself".toList

/-- The address of the site: the one given in full, else the one of the organisation. Blank
values count as missing. -/
def resolveBaseUrl? (base org : Option Text) : Option Text :=
  match base.bind Text.nonblank?, org.bind Text.nonblank? with
  | some url, _ => some (siteRoot url)
  | none, some org => some ("https://".toList ++ org ++ ".atlassian.net".toList)
  | none, none => none

end IssueMarkdown
