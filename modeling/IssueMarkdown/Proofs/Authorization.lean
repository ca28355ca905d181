import IssueMarkdown.Fetch
import IssueMarkdown.Proofs.Base64
import IssueMarkdown.Proofs.Decoding
import IssueMarkdown.Proofs.Segment
import Mathlib.Data.List.TakeDrop

/-! # Credentials in a header

The credentials that a request carries are read back by whoever receives it: the value of its
header is Base64 in full groups, what it stands for is split at its first colon, and the parts are
the bytes of the name and of the word. Every such value may stand in a header.
-/

namespace IssueMarkdown

open Text Web

namespace Web

variable {c c' : Credentials} {name word address : Text} {q : Request} {tables : Tables}
  {toAscii? : Text → Option Text}

/-! ## Headers -/

/-- What may stand in the value of a header: a tab, a blank, and the visible characters of ASCII. -/
def isHeaderChar (c : Char) : Bool := c == '\t' || Percent.isGraphic c

/-- A text as the value of a header, if it can be one. -/
def headerValue? (t : Text) : Option Text := if t.all isHeaderChar then some t else none

/-- The header that a client is set up with. -/
def Credentials.header? (c : Credentials) : Option Text :=
  headerValue? (basicAuthorization c.email c.token)

/-- The bytes of a name and of a word, as they are read from a header. -/
def readAuthorization? (value : Text) : Option (List UInt8 × List UInt8) := do
  let bytes ← Base64.decode? (← after? "Basic ".toList value)
  match bytes.span (· != ':'.toUInt8) with
  | (name, _ :: word) => some (name, word)
  | (_, []) => none

theorem isHeaderChar_letter : ∀ d < 64, isHeaderChar (Base64.letter d) := by
  decide

theorem Credentials.header?_eq (c : Credentials) :
    c.header? = some (basicAuthorization c.email c.token) := by
  refine if_pos (List.all_eq_true.mpr fun d hd => ?_)
  rcases List.mem_append.mp hd with hd | hd
  · exact (by decide +kernel : ∀ d ∈ "Basic ".toList, isHeaderChar d) d hd
  · rcases Base64.mem_encode hd with ⟨n, hn, rfl⟩ | rfl
    · exact isHeaderChar_letter n hn
    · decide

/-- A name without a colon is all that stands before the first one. -/
theorem readAuthorization?_basicAuthorization (h : ':' ∉ name) (word : Text) :
    readAuthorization? (basicAuthorization name word) = some (utf8 name, utf8 word) := by
  have value : after? "Basic ".toList (basicAuthorization name word) =
      some (Base64.encode (utf8 (name ++ ':' :: word))) := after?_eq_some_iff.mpr rfl
  have before : ∀ b ∈ utf8 name, (b != ':'.toUInt8) = true := by
    intro b hb
    rw [bne_iff_ne]
    rintro rfl
    exact h (mem_of_mem_utf8 (by decide) hb)
  have split : (utf8 (name ++ ':' :: word)).span (· != ':'.toUInt8) =
      (utf8 name, ':'.toUInt8 :: utf8 word) := by
    have colon : utf8 (':' :: word) = ':'.toUInt8 :: utf8 word := rfl
    rw [utf8_append, colon, List.span_eq_takeWhile_dropWhile, List.takeWhile_append_of_pos before,
      List.dropWhile_append_of_pos before]
    simp
  rw [readAuthorization?, value]
  simp only [Option.bind_eq_bind, Option.bind_some, Base64.decode?_encode, split]

theorem Credentials.eq_of_header?_eq (h : ':' ∉ c.email) (h' : ':' ∉ c'.email)
    (he : c.header? = c'.header?) : c = c' := by
  have value : basicAuthorization c.email c.token = basicAuthorization c'.email c'.token := by
    simpa only [header?_eq, Option.some.injEq] using he
  have read := readAuthorization?_basicAuthorization h c.token
  rw [value, readAuthorization?_basicAuthorization h'] at read
  obtain ⟨email, token⟩ := Prod.mk.inj (Option.some.inj read)
  rcases c with ⟨name, word⟩
  rcases c' with ⟨name', word'⟩
  obtain rfl := utf8_injective email
  obtain rfl := utf8_injective token
  rfl

/-! ## Users that an address names -/

/-- The user that an address names itself. -/
def namedUser? (toAscii? : Text → Option Text) (address : Text) : Option Credentials :=
  (Url.parse? toAscii? address).bind fun u => u.takeUser.1.map fun user => ⟨user.1, user.2⟩

/-- A user that the address names comes before the credentials of a client. -/
theorem authorization_of_get? (h : Request.get? tables c address = .ok q) :
    ((namedUser? tables.toAscii? address).getD c).header? = some q.authorization := by
  unfold Request.get? at h
  unfold namedUser?
  cases hu : Url.parse? tables.toAscii? address with
  | none => simp [hu] at h
  | some u =>
    simp only [hu] at h
    split at h
    · obtain rfl := Except.ok.inj h
      rw [Credentials.header?_eq]
      cases hn : u.takeUser.1 <;> simp [hn]
    · simp at h

namespace Url

variable {scheme t r : Text} {authority : Option Authority} {path : Path} {u : Url}

/-- Nobody is named before the host. -/
def Anonymous (authority : Option Authority) : Prop :=
  ∀ a ∈ authority, a.username = [] ∧ a.password = none

theorem authority?_of_notMem {a : Authority} (h : '@' ∉ t)
    (ha : authority? toAscii? scheme t = some (a, r)) : Anonymous (some a) := by
  have user : splitUserinfo t = (none, t) := if_neg (by simpa using h)
  unfold authority? at ha
  simp only [user, Option.bind_eq_bind] at ha
  split at ha
  · exact absurd ha (Option.some_ne_none _).symm
  split at ha
  all_goals
    obtain ⟨host, -, ha⟩ := Option.bind_eq_some_iff.mp ha
    obtain ⟨endpoint, -, ha⟩ := Option.bind_eq_some_iff.mp ha
    obtain ⟨rfl, -⟩ := Prod.mk.inj (Option.some.inj ha)
    rintro _ ⟨⟩
    exact ⟨rfl, rfl⟩

theorem anonymous_file (host t : Text) : Anonymous (file host t).1 := by
  rintro _ ⟨⟩
  exact ⟨rfl, rfl⟩

theorem hierarchy?_of_notMem (h : '@' ∉ t)
    (ha : hierarchy? toAscii? scheme t = some (authority, path)) : Anonymous authority := by
  have takeWhile {p : Char → Bool} {s : Text} (hs : s ⊆ t) : '@' ∉ s.takeWhile p := fun hm =>
    h (hs ((List.takeWhile_prefix p).subset hm))
  unfold hierarchy? at ha
  split_ifs at ha
  · obtain ⟨⟨a, r⟩, hr, ha⟩ := Option.bind_eq_some_iff.mp ha
    obtain ⟨rfl, -⟩ := Prod.mk.inj (Option.some.inj ha)
    exact authority?_of_notMem (takeWhile (List.dropWhile_suffix _).subset) hr
  · -- a file has a host at most
    have anonymous {host s : Text} (hf : some (file host s) = some (authority, path)) :
        Anonymous authority := by
      obtain rfl := congrArg Prod.fst (Option.some.inj hf)
      exact anonymous_file host s
    unfold fileHierarchy? at ha
    dsimp only at ha
    split_ifs at ha
    · exact anonymous ha
    · exact anonymous ha
    · obtain ⟨host, -, ha⟩ := Option.map_eq_some_iff.mp ha
      split_ifs at ha
      · exact anonymous (congrArg some ha)
      · exact anonymous (congrArg some ha)
  · unfold otherHierarchy? at ha
    split at ha
    · next s =>
      obtain ⟨⟨a, r⟩, hr, ha⟩ := Option.bind_eq_some_iff.mp ha
      have anonymous := authority?_of_notMem
        (takeWhile fun _ hc => List.mem_cons_of_mem _ (List.mem_cons_of_mem _ hc)) hr
      dsimp only at ha
      split_ifs at ha
      all_goals
        obtain ⟨rfl, -⟩ := Prod.mk.inj (Option.some.inj ha)
        exact anonymous
    all_goals
      obtain ⟨rfl, -⟩ := Prod.mk.inj (Option.some.inj ha)
      exact nofun

theorem subset_cut (mark : Char) (t : Text) : (cut mark t).1 ⊆ t :=
  (List.takeWhile_prefix _).subset

theorem subset_of_scheme? (h : scheme? t = some (scheme, r)) : r ⊆ t := by
  unfold scheme? at h
  split at h
  · exact absurd h (Option.some_ne_none _).symm
  · next c s =>
    split_ifs at h
    obtain ⟨r', hr, he⟩ := Option.map_eq_some_iff.mp h
    obtain ⟨-, rfl⟩ := Prod.mk.inj he
    have suffix : r' <:+ (c :: s).dropWhile isSchemeChar := ⟨[':'], (after?_eq_some_iff.mp hr).symm⟩
    exact (suffix.trans (List.dropWhile_suffix _)).subset

theorem cleaned_subset (t : Text) : cleaned t ⊆ t := by
  obtain ⟨b, -, hb⟩ := exists_dropEndWhile_append (· ≤ ' ') (t.dropWhile (· ≤ ' '))
  intro c hc
  have hm := List.mem_of_mem_filter hc
  refine (List.dropWhile_suffix (· ≤ ' ')).subset ?_
  rw [hb]
  exact List.mem_append_left b hm

/-- An address without an `@` names nobody. -/
theorem anonymous_of_parse? (h : '@' ∉ t) (hu : parse? toAscii? t = some u) :
    Anonymous u.authority := by
  unfold parse? at hu
  obtain ⟨⟨scheme, s⟩, hs, hu⟩ := Option.bind_eq_some_iff.mp hu
  obtain ⟨⟨authority, path⟩, ha, hu⟩ := Option.bind_eq_some_iff.mp hu
  obtain rfl := Option.some.inj hu
  refine hierarchy?_of_notMem (fun hm => h ?_) ha
  exact cleaned_subset t (subset_of_scheme? hs (subset_cut '#' s (subset_cut '?' _ hm)))

theorem takeUser_of_anonymous (h : Anonymous u.authority) : u.takeUser.1 = none := by
  unfold takeUser
  split
  · rfl
  · next a ha =>
    obtain ⟨name, word⟩ := h a ha
    simp [name, word]

end Url

theorem namedUser?_eq_none (h : '@' ∉ address) : namedUser? toAscii? address = none := by
  unfold namedUser?
  cases hu : Url.parse? toAscii? address with
  | none => rfl
  | some u => simp [Url.takeUser_of_anonymous (Url.anonymous_of_parse? h hu)]

end Web

namespace Settings

variable {s : Settings} {address : Text} {q : Request} {tables : Tables}

/-- The requests that are sent, and the addresses they are sent to. -/
inductive Sends (s : Settings) (tables : Tables) : Text → Request → Prop where
  | issue {r : Rendering} {key : Text} {d : Delivery} {q : Request}
      (hq : (fetchIssue s r key d tables).request = some q) :
      Sends s tables (apiUrl s.baseUrl (Percent.encode key)) q
  | profile {d : Delivery} {q : Request} (hq : (fetchDisplayName s d tables).request = some q) :
      Sends s tables (profileUrl s.baseUrl) q

theorem get?_of_request_ask {α : Type} {c : Credentials} {d : Delivery}
    {judge : Response → Except Failure α}
    (h : (Exchange.ask tables c address d judge).request = some q) :
    Request.get? tables c address = .ok q := by
  unfold Exchange.ask at h
  cases hq : Request.get? tables c address with
  | error f => simp [hq] at h
  | ok r => cases d <;> simp_all

theorem Sends.header? (h : s.Sends tables address q) :
    ((namedUser? tables.toAscii? address).getD s.credentials).header? = some q.authorization := by
  cases h with
  | issue hq => exact authorization_of_get? (get?_of_request_ask hq)
  | profile hq => exact authorization_of_get? (get?_of_request_ask hq)

/-- What is added to the address of a site names nobody. -/
theorem Sends.notMem (h : s.Sends tables address q) (hb : '@' ∉ s.baseUrl) : '@' ∉ address := by
  cases h with
  | @issue r key d q hq =>
    have root : '@' ∉ siteRoot s.baseUrl := fun hm => by
      obtain ⟨t, -, ht⟩ := exists_dropEndWhile_append (· == '/') s.baseUrl
      exact hb (ht ▸ List.mem_append_left t hm)
    have encoded : '@' ∉ Percent.encode key := fun hm =>
      absurd (Percent.mem_encode hm) (by decide)
    have interface : '@' ∉ "/rest/api/2/issue/".toList := by decide
    have fields : '@' ∉ "?fields=".toList := by decide
    have requested : '@' ∉ requestedFields := by decide
    have expand : '@' ∉ "&expand=renderedFields".toList := by decide
    unfold apiUrl
    simp only [List.mem_append, not_or]
    exact ⟨⟨⟨⟨⟨root, interface⟩, encoded⟩, fields⟩, requested⟩, expand⟩
  | profile hq =>
    have interface : '@' ∉ "/rest/api/2/myself".toList := by decide
    unfold profileUrl
    simp only [List.mem_append, not_or]
    exact ⟨hb, interface⟩

/-- All credentials make a header, from which they are read back if there is no colon in the name,
so that no two of them make the same. A request carries the header of a user whom its address names,
and that of its client if it names nobody. -/
theorem authorization_reads_back :
    (∀ c : Credentials, ∃ value, c.header? = some value ∧
      (':' ∉ c.email → readAuthorization? value = some (utf8 c.email, utf8 c.token))) ∧
    (∀ c c' : Credentials, ':' ∉ c.email → ':' ∉ c'.email → c.header? = c'.header? → c = c') ∧
    ∀ (tables : Tables) (s : Settings) (address : Text) (q : Request), s.Sends tables address q →
      ((namedUser? tables.toAscii? address).getD s.credentials).header? = some q.authorization ∧
      (namedUser? tables.toAscii? address = none → s.credentials.header? = some q.authorization ∧
        (':' ∉ s.credentials.email → readAuthorization? q.authorization =
          some (utf8 s.credentials.email, utf8 s.credentials.token))) ∧
      ('@' ∉ s.baseUrl → namedUser? tables.toAscii? address = none) := by
  refine ⟨fun c => ⟨_, c.header?_eq, fun h => readAuthorization?_basicAuthorization h _⟩,
    fun c c' => Credentials.eq_of_header?_eq, fun tables s address q h => ?_⟩
  refine ⟨h.header?, fun nobody => ?_, fun hb => namedUser?_eq_none (h.notMem hb)⟩
  have own := h.header?
  rw [nobody, Option.getD_none] at own
  refine ⟨own, fun hc => ?_⟩
  rw [← Option.some.inj (s.credentials.header?_eq.symm.trans own)]
  exact readAuthorization?_basicAuthorization hc _

/-- A colon in the word and letters of two bytes are read back. -/
theorem authorization_reads_back_sample :
    ∃ q, (fetchDisplayName ⟨"http://a".toList, ⟨['é'], "b:c".toList⟩, false⟩ .dropped).request =
      some q ∧ readAuthorization? q.authorization = some (utf8 ['é'], utf8 "b:c".toList) := by
  have sent :
      (fetchDisplayName ⟨"http://a".toList, ⟨['é'], "b:c".toList⟩, false⟩ .dropped).request =
        some ⟨"GET".toList, "http://a/rest/api/2/myself".toList, "Basic w6k6Yjpj".toList,
          "application/json".toList⟩ := by decide +kernel
  obtain ⟨-, -, read⟩ := authorization_reads_back
  obtain ⟨-, own, nobody⟩ := read _ _ _ _ (.profile sent)
  exact ⟨_, sent, (own (nobody (by decide))).2 (by decide)⟩

/-- A user in the address of the site comes before the credentials of the settings, which cannot be
read back then. -/
theorem authorization_of_namedUser :
    (fetchDisplayName ⟨"http://u:p@a".toList, ⟨['e'], ['t']⟩, false⟩ .dropped).request.map
      (readAuthorization? ·.authorization) = some (some (utf8 ['u'], utf8 ['p'])) ∧
    ¬ ∀ (tables : Tables) (s : Settings) (address : Text) (q : Request),
      s.Sends tables address q → ':' ∉ s.credentials.email →
        readAuthorization? q.authorization =
          some (utf8 s.credentials.email, utf8 s.credentials.token) := by
  have sent : (fetchDisplayName ⟨"http://u:p@a".toList, ⟨['e'], ['t']⟩, false⟩ .dropped).request =
      some ⟨"GET".toList, "http://a/rest/api/2/myself".toList, "Basic dTpw".toList,
        "application/json".toList⟩ := by decide +kernel
  have read : readAuthorization? "Basic dTpw".toList = some (utf8 ['u'], utf8 ['p']) := by
    decide +kernel
  refine ⟨by rw [sent, Option.map_some, read], fun h => ?_⟩
  have own := h _ _ _ _ (.profile sent) (by decide)
  exact absurd (read.symm.trans own) (by decide +kernel)

end Settings

end IssueMarkdown
