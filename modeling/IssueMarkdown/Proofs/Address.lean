import IssueMarkdown.Fetch
import IssueMarkdown.Proofs.Segment
import Mathlib.Data.List.DropRight

/-! # Where a request for an issue goes

The address that a request for an issue is sent to has the authority of the site, and below its path
the segments of the interface with the key as the last one. A key that is one dot or two is the
exception: such a segment is resolved when the address is read, and another place is asked.
-/

namespace IssueMarkdown

open Text Web

variable {place key t : Text} {ss : List Text} {query : Option Text} {u : Url}
  {toAscii? : Text → Option Text} {tables : Tables}

namespace Web.Url

/-! ## Reading an address -/

/-- What may stand between the scheme of an address and its path. -/
structure IsPlace (place : Text) : Prop where
  ne_nil : place ≠ []
  allowed : ∀ c ∈ place, ' ' < c ∧ c ∉ "/\\?#".toList

theorem cleaned_of_forall (h : ∀ c ∈ t, ' ' < c) : cleaned t = t := by
  have visible : ∀ c ∈ t, decide (c ≤ ' ') = false := fun c hc =>
    decide_eq_false (Char.not_le.mpr (h c hc))
  have front : t.dropWhile (· ≤ ' ') = t := by
    cases t with
    | nil => rfl
    | cons c t => rw [List.dropWhile_cons_of_neg (by simpa using visible c List.mem_cons_self)]
  have back : dropEndWhile (· ≤ ' ') t = t :=
    dropEndWhile_of_stop fun c hc => visible c (List.mem_of_getLast? hc)
  rw [cleaned, front, back, List.filter_eq_self]
  intro c hc
  have hlt := h c hc
  simp only [Bool.and_eq_true, bne_iff_ne]
  refine ⟨⟨?_, ?_⟩, ?_⟩ <;> rintro rfl <;> exact absurd hlt (by decide)

theorem cut_append_cons {mark : Char} (h : mark ∉ t) (r : Text) :
    cut mark (t ++ mark :: r) = (t, some r) := by
  have before : ∀ c ∈ t, (c != mark) = true := fun c hc => by
    simpa using ne_of_mem_of_not_mem hc h
  have stop : ∀ c ∈ (mark :: r).head?, (c != mark) = false := by simp
  have after : after? [mark] (mark :: r) = some r := after?_eq_some_iff.mpr rfl
  rw [cut, takeWhile_append_of_stop before stop, dropWhile_append_of_stop before stop, after]

theorem cut_of_notMem {mark : Char} (h : mark ∉ t) : cut mark t = (t, none) := by
  have before : ∀ c ∈ t, (c != mark) = true := fun c hc => by
    simpa using ne_of_mem_of_not_mem hc h
  rw [cut, List.takeWhile_eq_self_iff.mpr before, List.dropWhile_eq_nil_iff.mpr before]
  rfl

theorem scheme?_http (t : Text) :
    scheme? ("http:".toList ++ t) = some ("http".toList, t) := by
  rfl

theorem IsPlace.not_isEitherSlash (hp : IsPlace place) : ∀ c ∈ place, !isEitherSlash c := by
  intro c hc
  have := (hp.allowed c hc).2
  simp_all [isEitherSlash]

theorem webHierarchy?_append (hp : IsPlace place) {path : Text}
    (hpath : ∀ c ∈ path.head?, c = '/') (scheme : Text) :
    webHierarchy? toAscii? scheme ("//".toList ++ (place ++ path)) =
      (authority? toAscii? scheme place).map fun a =>
        (some a.1, .rooted (Path.segments isEitherSlash (path.drop 1))) := by
  have first : ∀ c ∈ (place ++ path).head?, isEitherSlash c = false := by
    obtain ⟨c, t, rfl⟩ := List.exists_cons_of_ne_nil hp.ne_nil
    simpa using hp.not_isEitherSlash c List.mem_cons_self
  have slashes : ∀ c ∈ "//".toList, isEitherSlash c := by decide
  have stop : ∀ c ∈ path.head?, (!isEitherSlash c) = false := by
    intro c hc
    rw [hpath c hc]
    rfl
  unfold webHierarchy?
  dsimp only
  rw [dropWhile_append_of_stop slashes first,
    takeWhile_append_of_stop hp.not_isEitherSlash stop,
    dropWhile_append_of_stop hp.not_isEitherSlash stop]
  cases authority? toAscii? scheme place <;> rfl

/-- What may follow the authority of an address. -/
structure IsTail (path : Text) (query : Option Text) : Prop where
  head : ∀ c ∈ path.head?, c = '/'
  path : ∀ c ∈ path, ' ' < c ∧ c ∉ ['?', '#']
  query : ∀ t ∈ query, ∀ c ∈ t, ' ' < c ∧ c ≠ '#'

theorem IsPlace.forall_mem (hp : IsPlace place) {path : Text} (ht : IsTail path query) :
    ∀ c ∈ "//".toList ++ (place ++ path), ' ' < c ∧ c ∉ ['?', '#'] := by
  intro c hc
  rcases List.mem_append.mp hc with hc | hc
  · exact (by decide : ∀ c ∈ "//".toList, ' ' < c ∧ c ∉ ['?', '#']) c hc
  · rcases List.mem_append.mp hc with hc | hc
    · exact ⟨(hp.allowed c hc).1, fun hm => (hp.allowed c hc).2 (List.mem_of_mem_drop (i := 2) hm)⟩
    · exact ht.path c hc

theorem IsTail.forall_mem_query {path : Text} (ht : IsTail path query) :
    ∀ c ∈ (query.map ('?' :: ·)).getD [], ' ' < c ∧ c ≠ '#' := by
  cases query with
  | none => exact fun _ hc => absurd hc List.not_mem_nil
  | some t => exact List.forall_mem_cons.mpr ⟨by decide, ht.query t rfl⟩

/-- An address of a place is read as the path and the query that it is written with. -/
theorem parse?_http (hp : IsPlace place) {path : Text} (ht : IsTail path query) :
    parse? toAscii? ("http://".toList ++ (place ++ path) ++ (query.map ('?' :: ·)).getD []) =
      (authority? toAscii? "http".toList place).map fun a =>
        ⟨"http".toList, some a.1, .rooted (Path.segments isEitherSlash (path.drop 1)),
          query.map (Percent.encodeBy (Percent.keepsInQuery true)), none⟩ := by
  have visible : ∀ c ∈ "http://".toList ++ (place ++ path) ++ (query.map ('?' :: ·)).getD [],
      ' ' < c := by
    intro c hc
    rcases List.mem_append.mp hc with hc | hc
    · rcases List.mem_append.mp hc with hc | hc
      · exact (by decide : ∀ c ∈ "http://".toList, ' ' < c) c hc
      · exact (hp.forall_mem ht c (List.mem_append_right _ hc)).1
    · exact (ht.forall_mem_query c hc).1
  have scheme : scheme? ("http://".toList ++ (place ++ path) ++
      (query.map ('?' :: ·)).getD []) = some ("http".toList,
        "//".toList ++ (place ++ path) ++ (query.map ('?' :: ·)).getD []) := scheme?_http _
  have fragmentless : '#' ∉ "//".toList ++ (place ++ path) ++ (query.map ('?' :: ·)).getD [] := by
    intro hc
    rcases List.mem_append.mp hc with hc | hc
    · simpa using (hp.forall_mem ht _ hc).2
    · exact (ht.forall_mem_query _ hc).2 rfl
  have asked : cut '?' ("//".toList ++ (place ++ path) ++ (query.map ('?' :: ·)).getD []) =
      ("//".toList ++ (place ++ path), query) := by
    have mark : '?' ∉ "//".toList ++ (place ++ path) := fun hc => by
      simpa using (hp.forall_mem ht _ hc).2
    cases query with
    | none => rw [Option.map_none, Option.getD_none, List.append_nil, cut_of_notMem mark]
    | some t => exact cut_append_cons mark t
  have hierarchy : hierarchy? toAscii? "http".toList ("//".toList ++ (place ++ path)) = _ :=
    webHierarchy?_append hp ht.head _
  simp only [parse?, cleaned_of_forall visible, scheme, bind, Option.bind,
    cut_of_notMem fragmentless, asked, hierarchy]
  cases authority? toAscii? "http".toList place <;> rfl

/-- The user that is taken out of an address depends on its authority alone. -/
theorem takeUser_eq {b : Url} (h : u.authority = b.authority) :
    u.takeUser.2 = { u with authority := b.takeUser.2.authority } := by
  rcases u with ⟨scheme, authority, path, query, fragment⟩
  obtain rfl : authority = b.authority := h
  cases hb : b.authority with
  | none => simp [takeUser, hb]
  | some a =>
    simp only [takeUser, hb]
    split_ifs
    · simp [hb]
    · cases ofUtf8? (Percent.decode a.username) with
      | none => simp [hb]
      | some name =>
        dsimp only
        split_ifs <;> simp [hb]

end Web.Url

open Url

theorem dropEndWhile_append_flatMap {a : Text} (ha : ∀ c ∈ a.getLast?, (c == '/') = false)
    (hss : ∀ s ∈ ss, '/' ∉ s) : dropEndWhile (· == '/') (a ++ ss.flatMap ('/' :: ·)) =
      a ++ (ss.rdropWhile List.isEmpty).flatMap ('/' :: ·) := by
  induction ss using List.reverseRecOn with
  | nil =>
    rw [List.rdropWhile_nil, List.flatMap_nil, List.append_nil]
    exact dropEndWhile_of_stop ha
  | append_singleton ss s ih =>
    rw [List.flatMap_append, List.flatMap_singleton, ← List.append_assoc]
    cases s with
    | nil =>
      rw [List.rdropWhile_concat_pos _ _ _ rfl, ← ih fun s hs => hss s (List.mem_append_left _ hs)]
      simp [dropEndWhile]
    | cons c s =>
      rw [List.rdropWhile_concat_neg _ _ _ (by simp), List.flatMap_append,
        List.flatMap_singleton, ← List.append_assoc]
      refine dropEndWhile_of_stop fun d hd => ?_
      rw [List.getLast?_append_of_ne_nil _ (by simp), List.getLast?_cons_cons] at hd
      have hc := hss (c :: s) (by simp)
      exact beq_false_of_ne (ne_of_mem_of_not_mem (List.mem_of_getLast? hd) hc)

/-- The address of a site, by the segments of its path. -/
def siteAddress (place : Text) (ss : List Text) : Text :=
  "http://".toList ++ (place ++ (Path.rooted ss).text)

/-- The segments of the interface below those of a site. -/
def interfaceSegments (ss : List Text) : List Text :=
  ss.rdropWhile List.isEmpty ++ ["rest".toList, "api".toList, ['2'], "issue".toList]

/-- What a request asks for of an issue. -/
def issueQuery : Text := "fields=summary,description,issuetype&expand=renderedFields".toList

theorem siteRoot_siteAddress (hp : IsPlace place) (hss : Path.Normal ss) :
    siteRoot (siteAddress place ss) = siteAddress place (ss.rdropWhile List.isEmpty) := by
  unfold siteRoot siteAddress
  simp only [Path.text, ← List.append_assoc]
  refine dropEndWhile_append_flatMap (fun c hc => ?_) hss.slash_notMem
  rw [List.getLast?_append_of_ne_nil _ hp.ne_nil] at hc
  have := hp.not_isEitherSlash c (List.mem_of_getLast? hc)
  simp_all [isEitherSlash]

theorem cons_issueQuery : '?' :: issueQuery =
    "?fields=".toList ++ requestedFields ++ "&expand=renderedFields".toList := by
  decide +kernel

theorem text_interfaceSegments (ss : List Text) (s : Text) :
    (Path.rooted (interfaceSegments ss ++ [s])).text =
      (Path.rooted (ss.rdropWhile List.isEmpty)).text ++ "/rest/api/2/issue/".toList ++ s := by
  simp [Path.text, interfaceSegments]

theorem apiUrl_siteAddress (hp : IsPlace place) (hss : Path.Normal ss) (key : Text) :
    apiUrl (siteAddress place ss) (Percent.encode key) =
      siteAddress place (interfaceSegments ss ++ [Percent.encode key]) ++ '?' :: issueQuery := by
  have query := cons_issueQuery
  unfold apiUrl
  rw [siteRoot_siteAddress hp hss]
  unfold siteAddress
  rw [text_interfaceSegments]
  -- the literals are set aside, lest they are evaluated
  generalize "http://".toList = scheme, "/rest/api/2/issue/".toList = interface
  rw [query]
  generalize "?fields=".toList = fields, "&expand=renderedFields".toList = expand
  simp only [List.append_assoc]

/-! ## Requests for an issue -/

/-- The last segment that is reached, of a key that is not two dots. -/
def reachedLast (key : Text) : Text := if key = ['.'] then [] else Percent.encode key

theorem reachedLast_injective {key' : Text} (hk : key ≠ []) (hk' : key' ≠ [])
    (h : reachedLast key = reachedLast key') : key = key' := by
  unfold reachedLast at h
  split_ifs at h with here here' here'
  · exact here.trans here'.symm
  · exact absurd h.symm (Percent.encode_ne_nil hk')
  · exact absurd h (Percent.encode_ne_nil hk)
  · exact Percent.encode_injective h

/-- The segments that a request for an issue reaches. -/
def reachedSegments (ss : List Text) (key : Text) : List Text :=
  if key = ['.', '.'] then ss.rdropWhile List.isEmpty ++ ["rest".toList, "api".toList, ['2'], []]
  else interfaceSegments ss ++ [reachedLast key]

theorem reachedSegments_of_ne (h : key ≠ ['.'] ∧ key ≠ ['.', '.']) (ss : List Text) :
    reachedSegments ss key = interfaceSegments ss ++ [Percent.encode key] := by
  rw [reachedSegments, if_neg h.2, reachedLast, if_neg h.1]

/-- The address below a site, without its user, where an issue is asked for. -/
def asked (site : Url) (ss : List Text) : Url :=
  ⟨site.scheme, site.takeUser.2.authority, .rooted ss, some issueQuery, none⟩

theorem normal_interfaceSegments (hss : Path.Normal ss) : Path.Normal (interfaceSegments ss) :=
  (hss.mono (List.rdropWhile_prefix _ ss).subset).append ⟨by decide, by decide, by decide⟩

theorem reverse_up_interfaceSegments (ss : List Text) :
    (Path.up (interfaceSegments ss).reverse).reverse =
      ss.rdropWhile List.isEmpty ++ ["rest".toList, "api".toList, ['2']] := by
  have issue : Path.namesDrive "issue".toList = false := by decide
  have last : (interfaceSegments ss).reverse = "issue".toList :: ['2'] :: "api".toList ::
      "rest".toList :: (ss.rdropWhile List.isEmpty).reverse := by
    rw [interfaceSegments, List.reverse_append]
    rfl
  rw [last, Path.up, issue]
  simp

/-- Every character of the segments that are asked for is unreserved, or begins a byte. -/
theorem mem_interfaceSegments (hss : Path.Normal ss) (key : Text) :
    ∀ s ∈ interfaceSegments ss ++ [Percent.encode key], ∀ c ∈ s,
      Percent.isUnreserved c ∨ c = '%' := by
  intro s hs c hc
  rcases List.mem_append.mp hs with hs | hs
  · exact .inl ((normal_interfaceSegments hss).unreserved s hs c hc)
  · obtain rfl := List.mem_singleton.mp hs
    exact Percent.mem_encode hc

theorem isEitherSlash_eq_false {c : Char} (hc : Percent.isUnreserved c ∨ c = '%') :
    isEitherSlash c = false := by
  rw [Bool.eq_false_iff]
  intro h
  simp only [isEitherSlash, Bool.or_eq_true, beq_iff_eq] at h
  rcases h with rfl | rfl <;> exact absurd hc (by decide)

theorem isTail_text (hss : ∀ s ∈ ss, ∀ c ∈ s, Percent.isUnreserved c ∨ c = '%')
    (hq : ∀ t ∈ query, ∀ c ∈ t, ' ' < c ∧ c ≠ '#') : IsTail (Path.rooted ss).text query where
  head := by
    cases ss with
    | nil => exact fun _ hc => absurd hc (by simp [Path.text])
    | cons s ss => exact fun _ hc => (Option.some.inj hc).symm
  path := by
    intro c hc
    obtain ⟨s, hs, hc⟩ := List.mem_flatMap.mp hc
    rcases List.mem_cons.mp hc with rfl | hc
    · decide
    · rcases hss s hs c hc with hc | rfl
      · exact Percent.allowed_of_keepsInPath (Percent.keepsInPath_of_isUnreserved hc)
      · decide
  query := hq

theorem parse?_siteAddress (hp : IsPlace place) (hss : Path.Normal ss) :
    ∃ path, parse? toAscii? (siteAddress place ss) =
      (authority? toAscii? "http".toList place).map fun a =>
        ⟨"http".toList, some a.1, path, none, none⟩ := by
  have tail : IsTail (Path.rooted ss).text none :=
    isTail_text (fun s hs c hc => .inl (hss.unreserved s hs c hc)) (by simp)
  have parsed : parse? toAscii? _ = _ := parse?_http hp tail
  rw [Option.map_none, Option.getD_none, List.append_nil] at parsed
  exact ⟨_, parsed⟩

/-- The key becomes the last segment, unless it is resolved as a dot segment. -/
theorem segments_interfaceSegments (hss : Path.Normal ss) (key : Text) :
    Path.segments isEitherSlash
      ((Path.rooted (interfaceSegments ss ++ [Percent.encode key])).text.drop 1) =
        reachedSegments ss key := by
  have resolved := (normal_interfaceSegments hss).resolve_map_append key
  have plain : ∀ s ∈ interfaceSegments ss ++ [Percent.encode key], ∀ c ∈ s,
      isEitherSlash c = false :=
    fun s hs c hc => isEitherSlash_eq_false (mem_interfaceSegments hss key s hs c hc)
  obtain ⟨l, ls, hl⟩ := List.exists_cons_of_ne_nil
    (List.concat_ne_nil (Percent.encode key) (interfaceSegments ss))
  rw [hl] at plain resolved ⊢
  obtain ⟨first, plain⟩ := List.forall_mem_cons.mp plain
  rw [Path.segments]
  show Path.resolve id [] ((splitBy isEitherSlash (l ++ ls.flatMap ('/' :: ·))).map _) = _
  rw [Path.splitBy_append_flatMap rfl first plain, resolved, reachedSegments,
    reverse_up_interfaceSegments, List.append_assoc]
  rfl

theorem parse?_apiUrl (hp : IsPlace place) (hss : Path.Normal ss) (key : Text) :
    parse? toAscii? (apiUrl (siteAddress place ss) (Percent.encode key)) =
      (authority? toAscii? "http".toList place).map fun a =>
        ⟨"http".toList, some a.1, .rooted (reachedSegments ss key), some issueQuery, none⟩ := by
  have tail : IsTail (Path.rooted (interfaceSegments ss ++ [Percent.encode key])).text
      (some issueQuery) :=
    isTail_text (mem_interfaceSegments hss key) (by rintro t ⟨⟩; decide +kernel)
  have kept : Percent.encodeBy (Percent.keepsInQuery true) issueQuery = issueQuery := by
    decide +kernel
  rw [apiUrl_siteAddress hp hss]
  refine (parse?_http hp tail).trans ?_
  rw [Option.map_some, kept, segments_interfaceSegments hss]

theorem url_request_ask {α : Type} (tables : Tables) (c : Credentials) (address : Text)
    (d : Delivery) (judge : Response → Except Failure α) :
    (Exchange.ask tables c address d judge).request.map Request.url =
      if d = .refused then none else (parse? tables.toAscii? address).bind fun u =>
        if u.takeUser.2.isRequestable then some u.takeUser.2.text else none := by
  unfold Exchange.ask Request.get?
  cases parse? tables.toAscii? address with
  | none => simp
  | some u =>
    dsimp only [Option.bind_some]
    split_ifs <;> cases d <;> simp_all

/-- What is sent for an issue, and whether anything is. -/
theorem url_request_fetchIssue (hp : IsPlace place) (hss : Path.Normal ss) {s : Settings}
    (hs : s.baseUrl = siteAddress place ss) (r : Rendering) (key : Text) (d : Delivery)
    (tables : Tables) : (fetchIssue s r key d tables).request.map Request.url =
      if d = .refused then none else (parse? tables.toAscii? s.baseUrl).bind fun site =>
        let u := asked site (reachedSegments ss key)
        if u.isRequestable then some u.text else none := by
  obtain ⟨path, hsite⟩ := parse?_siteAddress hp hss
  rw [fetchIssue, url_request_ask, hs, parse?_apiUrl hp hss, hsite]
  cases authority? tables.toAscii? "http".toList place with
  | none => rfl
  | some a =>
    have site : (takeUser ⟨"http".toList, some a.1, .rooted (reachedSegments ss key),
        some issueQuery, none⟩).2 =
        asked ⟨"http".toList, some a.1, path, none, none⟩ (reachedSegments ss key) :=
      takeUser_eq rfl
    rw [Option.map_some, Option.map_some, Option.bind_some, Option.bind_some, site]

/-! ## What the address tells -/

theorem isSome_authority_takeUser (u : Url) :
    u.takeUser.2.authority.isSome = u.authority.isSome := by
  rcases u with ⟨scheme, _ | a, path, query, fragment⟩
  · rfl
  · unfold takeUser
    dsimp only
    split
    · rfl
    · split
      · rfl
      · split <;> rfl

theorem authority_of_parse?_siteAddress (hp : IsPlace place) (hss : Path.Normal ss) {site : Url}
    (h : parse? toAscii? (siteAddress place ss) = some site) :
    ∃ a, site.takeUser.2.authority = some a := by
  obtain ⟨path, hsite⟩ := parse?_siteAddress hp hss
  obtain ⟨a, -, rfl⟩ := Option.map_eq_some_iff.mp (hsite.symm.trans h)
  exact Option.isSome_iff_exists.mp (isSome_authority_takeUser _)

/-- Addresses below one authority differ only if their paths do. -/
theorem text_asked_eq_iff {site : Url} {a : Authority} (ha : site.takeUser.2.authority = some a)
    {ls : List Text} :
    (asked site ss).text = (asked site ls).text ↔
      (Path.rooted ss).text = (Path.rooted ls).text := by
  simp [asked, text, hierarchyText, ha]

/-- What is reached below the interface, after the key is resolved. -/
def reachedTail (key : Text) : Text :=
  if key = ['.', '.'] then [] else "issue/".toList ++ reachedLast key

theorem text_reachedSegments (ss : List Text) (key : Text) :
    (Path.rooted (reachedSegments ss key)).text =
      (Path.rooted (ss.rdropWhile List.isEmpty)).text ++
        ("/rest/api/2/".toList ++ reachedTail key) := by
  unfold reachedSegments reachedTail
  split <;> simp [Path.text, interfaceSegments, reachedLast]

theorem issue_append_ne_nil (t : Text) : "issue/".toList ++ t ≠ [] :=
  List.append_ne_nil_of_left_ne_nil (by decide) t

theorem reachedTail_injective {key' : Text} (hk : key ≠ []) (hk' : key' ≠ [])
    (h : reachedTail key = reachedTail key') : key = key' := by
  unfold reachedTail at h
  split_ifs at h with up up' up'
  · exact up.trans up'.symm
  · exact absurd h.symm (issue_append_ne_nil _)
  · exact absurd h (issue_append_ne_nil _)
  · exact reachedLast_injective hk hk' (List.append_cancel_left h)

/-- The tail is the key below the issues, unless the key is one dot or two. -/
theorem reachedTail_eq_iff (hk : key ≠ []) :
    reachedTail key = "issue/".toList ++ Percent.encode key ↔ key ≠ ['.'] ∧ key ≠ ['.', '.'] := by
  unfold reachedTail
  split_ifs with up
  · exact iff_of_false (issue_append_ne_nil _).symm fun h => h.2 up
  · rw [List.append_cancel_left_eq, reachedLast]
    split_ifs with here
    · exact iff_of_false (Percent.encode_ne_nil hk).symm fun h => h.1 here
    · exact iff_of_true rfl ⟨here, up⟩

theorem siteRoot_text (hss : Path.Normal ss) : siteRoot (Path.rooted ss).text =
    (Path.rooted (ss.rdropWhile List.isEmpty)).text :=
  dropEndWhile_append_flatMap (a := []) nofun hss.slash_notMem

section Request

variable (hp : IsPlace place) (hss : Path.Normal ss) {s : Settings}
  (hs : s.baseUrl = siteAddress place ss)

include hp hss hs

/-- A request goes below the authority of the site. -/
theorem exists_site_of_request {r : Rendering} {d : Delivery} {q : Request}
    (hq : (fetchIssue s r key d tables).request = some q) : ∃ site a,
      parse? tables.toAscii? s.baseUrl = some site ∧ site.takeUser.2.authority = some a ∧
        q.url = (asked site (reachedSegments ss key)).text := by
  have url := url_request_fetchIssue hp hss hs r key d tables
  rw [hq, Option.map_some] at url
  split_ifs at url
  obtain ⟨site, hsite, url⟩ := Option.bind_eq_some_iff.mp url.symm
  dsimp only at url
  split_ifs at url
  obtain ⟨a, ha⟩ := authority_of_parse?_siteAddress hp hss (hs ▸ hsite)
  exact ⟨site, a, hsite, ha, (Option.some.inj url).symm⟩

theorem url_eq_iff (hk : key ≠ []) {site : Url}
    (hsite : parse? tables.toAscii? s.baseUrl = some site) {r : Rendering} {d : Delivery}
    {q : Request} (hq : (fetchIssue s r key d tables).request = some q) :
    q.url = (asked site (interfaceSegments ss ++ [Percent.encode key])).text ↔
      key ≠ ['.'] ∧ key ≠ ['.', '.'] := by
  obtain ⟨site', a, hsite', ha, hu⟩ := exists_site_of_request hp hss hs hq
  obtain rfl := Option.some.inj (hsite.symm.trans hsite')
  have interface : (Path.rooted (interfaceSegments ss ++ [Percent.encode key])).text =
      (Path.rooted (ss.rdropWhile List.isEmpty)).text ++
        ("/rest/api/2/".toList ++ ("issue/".toList ++ Percent.encode key)) := by
    simp [Path.text, interfaceSegments]
  rw [hu, text_asked_eq_iff ha, text_reachedSegments, interface, List.append_cancel_left_eq,
    List.append_cancel_left_eq, reachedTail_eq_iff hk]

theorem eq_of_url_eq (hk : key ≠ []) {key' : Text} (hk' : key' ≠ []) {r r' : Rendering}
    {d d' : Delivery} {q q' : Request} (hq : (fetchIssue s r key d tables).request = some q)
    (hq' : (fetchIssue s r' key' d' tables).request = some q') (h : q.url = q'.url) :
    key = key' := by
  obtain ⟨site, a, hsite, ha, hu⟩ := exists_site_of_request hp hss hs hq
  obtain ⟨site', a', hsite', -, hu'⟩ := exists_site_of_request hp hss hs hq'
  obtain rfl := Option.some.inj (hsite.symm.trans hsite')
  rw [hu, hu', text_asked_eq_iff ha, text_reachedSegments, text_reachedSegments,
    List.append_cancel_left_eq, List.append_cancel_left_eq] at h
  exact reachedTail_injective hk hk' h

/-- A key is one segment, and only a key that is one dot or two is asked for somewhere else than
below the issues of the site. No two keys are asked for at one address. That is so whatever names
of domains are written in ASCII, and however. -/
theorem request_fetchIssue (hk : key ≠ []) (r : Rendering) (d : Delivery) (tables : Tables) :
    (Percent.decode (Percent.encode key) = utf8 key ∧ '/' ∉ Percent.encode key) ∧
    (parse? tables.toAscii? s.baseUrl = none → (fetchIssue s r key d tables).request = none) ∧
    (∀ site, parse? tables.toAscii? s.baseUrl = some site →
      let u := asked site (interfaceSegments ss ++ [Percent.encode key])
      u.path.text = siteRoot (Path.rooted ss).text ++ "/rest/api/2/issue/".toList ++
        Percent.encode key ∧
      (key ≠ ['.'] ∧ key ≠ ['.', '.'] → (fetchIssue s r key d tables).request.map Request.url =
        if d ≠ .refused ∧ u.isRequestable then some u.text else none) ∧
      ∀ q, (fetchIssue s r key d tables).request = some q →
        (q.url = u.text ↔ key ≠ ['.'] ∧ key ≠ ['.', '.'])) ∧
    ∀ key' ≠ [], ∀ r' d' q q', (fetchIssue s r key d tables).request = some q →
      (fetchIssue s r' key' d' tables).request = some q' → q.url = q'.url → key = key' := by
  refine ⟨⟨Percent.decode_encode key, fun hm => ?_⟩, fun hn => ?_,
    fun site hsite => ⟨?_, fun hd => ?_, fun q hq => url_eq_iff hp hss hs hk hsite hq⟩,
    fun key' hk' r' d' q q' hq hq' => eq_of_url_eq hp hss hs hk hk' hq hq'⟩
  · exact absurd (Percent.mem_encode hm) (by decide)
  · rw [Option.eq_none_iff_forall_ne_some]
    intro q hq
    obtain ⟨site, -, hsite, -⟩ := exists_site_of_request hp hss hs hq
    exact absurd (hn.symm.trans hsite) (by simp)
  · exact (text_interfaceSegments ss _).trans (by rw [siteRoot_text hss])
  · rw [url_request_fetchIssue hp hss hs, hsite, reachedSegments_of_ne hd, Option.bind_some]
    by_cases hr : d = .refused
    · rw [if_pos hr, if_neg fun h => h.1 hr]
    · rw [if_neg hr]
      dsimp only
      simp only [hr, ne_eq, not_false_eq_true, true_and]

end Request

/-- Settings of a site that is not asked as anybody in particular. -/
def Settings.ofSite (base : Text) : Settings := ⟨base, ⟨['u'], ['p']⟩, false⟩

/-- Tables that know one name outside of ASCII. -/
def Web.Tables.knowing (name ascii : Text) : Tables where
  toAscii? t := if t = name then some ascii else Host.inAscii? t
  decoder? _ := none

/-- A key that looks like a path and a query, at a site whose name is not in ASCII and whose path
ends in a slash. -/
theorem request_fetchIssue_path :
    (fetchIssue (.ofSite "http://bücher.example/b/".toList) (.ofSettings none none)
      "../?é".toList .dropped
      (.knowing "bücher.example".toList "xn--bcher-kva.example".toList)).request.map Request.url =
      some ("http://xn--bcher-kva.example/b/rest/api/2/issue/..%2F%3F%C3%A9".toList ++
        '?' :: issueQuery) ∧
    Percent.decode "..%2F%3F%C3%A9".toList = utf8 "../?é".toList := by
  have place : IsPlace "bücher.example".toList := ⟨by decide, by decide⟩
  have normal : Path.Normal [['b'], []] := ⟨by decide, by decide, by decide⟩
  have site : parse?
      (Tables.knowing "bücher.example".toList "xn--bcher-kva.example".toList).toAscii?
      "http://bücher.example/b/".toList =
        some ⟨"http".toList, some ⟨[], none, "xn--bcher-kva.example".toList, none⟩,
          .rooted [['b'], []], none, none⟩ := by decide +kernel
  have encoded : Percent.encode "../?é".toList = "..%2F%3F%C3%A9".toList := by decide +kernel
  obtain ⟨⟨decoded, -⟩, -, reached, -⟩ := request_fetchIssue place normal
    (s := .ofSite "http://bücher.example/b/".toList) rfl (by decide : "../?é".toList ≠ [])
    (.ofSettings none none) .dropped
    (.knowing "bücher.example".toList "xn--bcher-kva.example".toList)
  obtain ⟨-, url, -⟩ := reached _ site
  exact ⟨(url ⟨by decide, by decide⟩).trans (by decide +kernel), encoded ▸ decoded⟩

/-- Two dots lead out of the issues, and the address is that of the interface. -/
theorem request_fetchIssue_dots :
    (fetchIssue (.ofSite "http://jira.example.com".toList) (.ofSettings none none) "..".toList
      .dropped).request.map Request.url =
      some ("http://jira.example.com/rest/api/2/".toList ++ '?' :: issueQuery) := by
  decide +kernel

end IssueMarkdown
