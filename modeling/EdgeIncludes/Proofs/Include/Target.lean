/-
What a URL is resolved to.

A URL is cut at its first marker `://`, and what stands in front of the marker is taken for a
scheme, whether or not it is one.  So a URL that begins with no scheme is a path on the page's
host as long as no marker occurs in it, and with a marker anywhere in it, be it in its query, it
is refused (`resolve_of_no_scheme`).  A URL of nothing but blanks is no URL
(`resolve_eq_missingSource_iff`).

What a URL is resolved to can be sent: the host is not empty and the path begins with `/`.  If
the URL names its host, the host and the path are the rest of the URL cut in two, with a `/` put
between them if the URL has no path (`usable_of_resolve`).
-/
import EdgeIncludes.Include.Target
import Mathlib.Data.List.DropRight
import Mathlib.Data.List.TakeWhile

namespace EdgeIncludes

/-- Nothing is left of a text just if there is nothing but blanks in it. -/
theorem Text.trim_eq_nil_iff {text : List Char} :
    trim text = [] ↔ ∀ c ∈ text, isBlank c := by
  have hend : trim text = (trimStart text).rdropWhile isBlank := rfl
  rw [hend, List.rdropWhile_eq_nil_iff]
  constructor
  · intro h c hc
    by_contra hblank
    -- a character that is not blank would be left at the front
    have hne : trimStart text ≠ [] := fun hnil =>
      hblank (List.dropWhile_eq_nil_iff.mp hnil c hc)
    have hfirst : isBlank ((trimStart text).head hne) = false := List.head_dropWhile_not isBlank hne
    rw [h _ (List.head_mem hne)] at hfirst
    cases hfirst
  · intro h c hc
    exact h c (List.dropWhile_subset _ hc)

namespace Include
namespace Target

/-! ## Markers -/

/-- What stands between the scheme and the host of a URL. -/
def marker : List Char := [':', '/', '/']

theorem marker_prefix_cons_iff {c : Char} {rest : List Char} :
    marker <+: c :: rest ↔ (['/', '/'].isPrefixOf rest && c == ':') = true := by
  rw [marker, List.cons_prefix_cons, Bool.and_eq_true, beq_iff_eq, List.isPrefixOf_iff_prefix,
    and_comm, eq_comm]

theorem splitAtScheme?_marker (rest : List Char) :
    splitAtScheme? (marker ++ rest) = some ([], rest) := by
  rfl

theorem splitAtScheme?_cons {c : Char} {rest : List Char} (h : ¬ marker <+: c :: rest) :
    splitAtScheme? (c :: rest) =
      (splitAtScheme? rest).map fun (scheme, after) => (c :: scheme, after) := by
  rw [splitAtScheme?, if_neg (mt marker_prefix_cons_iff.mpr h)]

/-- Two markers do not overlap. -/
theorem not_marker_isPrefix_cons {c : Char} {front : List Char} (h : ¬ marker <:+: c :: front)
    (rest : List Char) : ¬ marker <+: c :: front ++ marker ++ rest := by
  intro hmarker
  match front with
  | [] => exact absurd hmarker (by simp [marker])
  | [d] => exact absurd hmarker (by simp [marker])
  | d :: e :: front =>
    apply h
    refine List.IsPrefix.isInfix ?_
    simpa [marker] using hmarker

/-- The URL is cut at its first marker. -/
theorem splitAtScheme?_eq_some_iff {url front rest : List Char} :
    splitAtScheme? url = some (front, rest) ↔
      url = front ++ marker ++ rest ∧ ¬ marker <:+: front := by
  constructor
  · intro h
    induction url generalizing front with
    | nil => cases h
    | cons c url ih =>
      by_cases hmarker : marker <+: c :: url
      · obtain ⟨after, hafter⟩ := hmarker
        rw [← hafter, splitAtScheme?_marker] at h
        cases h
        exact ⟨hafter.symm, by simp [marker]⟩
      · rw [splitAtScheme?_cons hmarker] at h
        obtain ⟨⟨scheme, after⟩, hsplit, heq⟩ := Option.map_eq_some_iff.mp h
        cases heq
        obtain ⟨hurl, hfirst⟩ := ih hsplit
        refine ⟨by rw [hurl]; rfl, ?_⟩
        intro hinfix
        rcases List.infix_cons_iff.mp hinfix with hprefix | hlater
        · apply hmarker
          rw [hurl, List.append_assoc, ← List.cons_append]
          exact hprefix.trans (List.prefix_append _ _)
        · exact hfirst hlater
  · rintro ⟨rfl, hfirst⟩
    induction front with
    | nil => exact splitAtScheme?_marker rest
    | cons c front ih =>
      have hlater : ¬ marker <:+: front := fun h => hfirst (List.infix_cons h)
      have hsplit : splitAtScheme? (c :: (front ++ marker ++ rest)) = _ :=
        splitAtScheme?_cons (not_marker_isPrefix_cons hfirst rest)
      rw [ih hlater] at hsplit
      exact hsplit

theorem splitAtScheme?_eq_none_iff {url : List Char} :
    splitAtScheme? url = none ↔ ¬ marker <:+: url := by
  induction url with
  | nil => simp [splitAtScheme?, marker]
  | cons c url ih =>
    rw [List.infix_cons_iff, not_or, ← ih]
    by_cases hmarker : marker <+: c :: url
    · have hcut := marker_prefix_cons_iff.mp hmarker
      rw [splitAtScheme?, if_pos hcut]
      simp [hmarker]
    · rw [splitAtScheme?_cons hmarker, Option.map_eq_none_iff]
      simp [hmarker]

/-! ## Schemes -/

/-- The characters that a scheme has after its first letter. -/
def isSchemeChar (c : Char) : Bool :=
  c.isAlphanum || c == '+' || c == '-' || c == '.'

/-- The URL begins with a scheme and a marker. -/
def hasScheme : List Char → Bool
  | [] => false
  | c :: rest => c.isAlpha && marker.isPrefixOf (rest.dropWhile isSchemeChar)

theorem isAlpha_of_isAlpha_toLower {c : Char} (h : c.toLower.isAlpha) : c.isAlpha := by
  by_cases hupper : c.val ≥ 'A'.val ∧ c.val ≤ 'Z'.val
  · have hisUpper : c.isUpper := decide_eq_true hupper
    show (c.isUpper || c.isLower) = true
    rw [hisUpper, Bool.true_or]
  · have hsame : c.toLower = c := dif_neg hupper
    rwa [hsame] at h

theorem isServed_iff {scheme : List Char} :
    isServed scheme ↔ scheme.map Char.toLower = ['h', 't', 't', 'p'] ∨
      scheme.map Char.toLower = ['h', 't', 't', 'p', 's'] := by
  simp only [isServed, schemes, List.any_cons, List.any_nil, Bool.or_false, Bool.or_eq_true,
    Text.sameLetters, beq_iff_eq]
  rfl

theorem isAlpha_of_isServed {scheme : List Char} (h : isServed scheme) :
    ∀ c ∈ scheme, c.isAlpha := by
  intro c hc
  apply isAlpha_of_isAlpha_toLower
  have hmem : c.toLower ∈ scheme.map Char.toLower := List.mem_map_of_mem hc
  have hhttp : ['h', 't', 't', 'p'].all Char.isAlpha := by decide
  have hhttps : ['h', 't', 't', 'p', 's'].all Char.isAlpha := by decide
  rcases isServed_iff.mp h with hfold | hfold
  · exact List.all_eq_true.mp hhttp _ (hfold ▸ hmem)
  · exact List.all_eq_true.mp hhttps _ (hfold ▸ hmem)

/-- A scheme that is served is a scheme. -/
theorem hasScheme_of_isServed {scheme : List Char} (h : isServed scheme) (rest : List Char) :
    hasScheme (scheme ++ marker ++ rest) := by
  cases scheme with
  | nil => exact absurd h (by decide)
  | cons c more =>
    obtain ⟨hc, hmore⟩ := List.forall_mem_cons.mp (isAlpha_of_isServed h)
    have hchars : ∀ d ∈ more, isSchemeChar d := by
      intro d hd
      rw [isSchemeChar, Char.isAlphanum, hmore d hd]
      rfl
    have hdrop : (more ++ (marker ++ rest)).dropWhile isSchemeChar = marker ++ rest := by
      rw [List.dropWhile_append_of_pos hchars]
      rfl
    rw [List.append_assoc, List.cons_append, hasScheme, hc, hdrop, Bool.true_and,
      List.isPrefixOf_iff_prefix]
    exact List.prefix_append marker rest

/-- In a URL with a scheme that is served, the first marker is the one after the scheme. -/
theorem splitAtScheme?_of_isServed {scheme : List Char} (h : isServed scheme)
    (rest : List Char) : splitAtScheme? (scheme ++ marker ++ rest) = some (scheme, rest) := by
  apply splitAtScheme?_eq_some_iff.mpr
  refine ⟨rfl, ?_⟩
  intro hmarker
  have hcolon : ':' ∈ scheme := hmarker.subset List.mem_cons_self
  exact absurd (isAlpha_of_isServed h _ hcolon) (by decide)

/-! ## Directories -/

/-- The directory of a page: what is in front of its first `?`, up to the last `/` of that and
with it.  Where there is no `/`, the directory is `/`. -/
def IsDirectory (page directory : List Char) : Prop :=
  ∃ path query, page = path ++ query ∧ '?' ∉ path ∧ (query = [] ∨ query.head? = some '?') ∧
    ((∃ front file, path = front ++ '/' :: file ∧ '/' ∉ file ∧ directory = front ++ ['/']) ∨
      '/' ∉ path ∧ directory = ['/'])

/-- What is left of a list past its first items is empty or begins with an item that is not one
of them. -/
theorem dropWhile_eq_nil_or_head? {α : Type} (p : α → Bool) (items : List α) :
    items.dropWhile p = [] ∨ ∃ item, (items.dropWhile p).head? = some item ∧ p item = false := by
  have hhead := List.head?_dropWhile_not p items
  cases hrest : items.dropWhile p with
  | nil => exact Or.inl rfl
  | cons item rest =>
    rw [hrest] at hhead
    exact Or.inr ⟨item, rfl, hhead⟩

theorem exists_lastSlash (path : List Char) :
    (∃ front file, path = front ++ '/' :: file ∧ '/' ∉ file ∧
        (path.reverse.dropWhile fun c => c != '/').reverse = front ++ ['/']) ∨
      '/' ∉ path ∧ (path.reverse.dropWhile fun c => c != '/').reverse = [] := by
  have hsplit := List.takeWhile_append_dropWhile (p := fun c => c != '/') (l := path.reverse)
  have hfile : '/' ∉ path.reverse.takeWhile fun c => c != '/' := by
    intro hmem
    simpa using List.mem_takeWhile_imp hmem
  generalize path.reverse.takeWhile (fun c => c != '/') = file at hsplit hfile
  rcases dropWhile_eq_nil_or_head? (fun c => c != '/') path.reverse with hnil | ⟨c, hhead, hc⟩
  · right
    rw [hnil, List.append_nil] at hsplit
    refine ⟨?_, by rw [hnil]; rfl⟩
    rwa [← List.mem_reverse, ← hsplit]
  · left
    obtain ⟨front, hfront⟩ := List.head?_eq_some_iff.mp hhead
    have hslash : c = '/' := by simpa using hc
    subst hslash
    refine ⟨front.reverse, file.reverse, ?_, mt List.mem_reverse.mp hfile, ?_⟩
    · rw [← List.reverse_reverse path, ← hsplit, hfront]
      simp
    · rw [hfront, List.reverse_cons]

theorem isDirectory_directory (page : List Char) : IsDirectory page (directory page) := by
  refine ⟨page.takeWhile fun c => c != '?', page.dropWhile fun c => c != '?',
    List.takeWhile_append_dropWhile.symm, ?_, ?_, ?_⟩
  · intro hmem
    simpa using List.mem_takeWhile_imp hmem
  · rcases dropWhile_eq_nil_or_head? (fun c => c != '?') page with hnil | ⟨c, hhead, hc⟩
    · exact Or.inl hnil
    · have hmark : c = '?' := by simpa using hc
      exact Or.inr (hmark ▸ hhead)
  · rw [directory]
    generalize page.takeWhile (fun c => c != '?') = path
    rcases exists_lastSlash path with ⟨front, file, hpath, hfile, hdir⟩ | ⟨hpath, hdir⟩
    · refine Or.inl ⟨front, file, hpath, hfile, ?_⟩
      rw [hdir]
      split
      · rename_i hnil
        exact absurd hnil (by simp)
      · rfl
    · refine Or.inr ⟨hpath, ?_⟩
      rw [hdir]

/-- The directory of a page that is a path is a path. -/
theorem IsDirectory.head?_eq {page directory : List Char} (h : IsDirectory page directory)
    (hpage : page = [] ∨ page.head? = some '/') : directory.head? = some '/' := by
  obtain ⟨path, query, rfl, hpath, hquery, ⟨front, file, rfl, -, rfl⟩ | ⟨-, rfl⟩⟩ := h
  · cases front with
    | nil => rfl
    | cons c front =>
      rcases hpage with hnil | hhead
      · exact absurd hnil (by simp)
      · exact hhead
  · rfl

/-! ## Resolution -/

variable {url authority page : String}

theorem resolve_of_ne_nil (h : Text.trim url.toList ≠ []) :
    resolve url authority page =
      match splitAtScheme? (Text.trim url.toList) with
      | some (scheme, after) => ofAbsolute (Text.trim url.toList) scheme after
      | none => ofPath (Text.trim url.toList) authority page := by
  rw [resolve]
  exact if_neg (by rwa [List.isEmpty_iff])

theorem ofAbsolute_ne_missingSource (address scheme after : List Char) :
    ofAbsolute address scheme after ≠ .error .missingSource := by
  rw [ofAbsolute]
  split
  · nofun
  · dsimp only
    split <;> nofun

theorem ofPath_ne_missingSource (address : List Char) (authority page : String) :
    ofPath address authority page ≠ .error .missingSource := by
  rw [ofPath]
  split
  · nofun
  · split <;> nofun

/-- A URL is taken for none at all just if there is nothing but blanks in it. -/
theorem resolve_eq_missingSource_iff :
    resolve url authority page = .error .missingSource ↔ ∀ c ∈ url.toList, Text.isBlank c := by
  rw [← Text.trim_eq_nil_iff]
  constructor
  · intro h
    by_contra hurl
    rw [resolve_of_ne_nil hurl] at h
    split at h
    · exact ofAbsolute_ne_missingSource _ _ _ h
    · exact ofPath_ne_missingSource _ _ _ h
  · intro hurl
    rw [resolve, hurl]
    rfl

/-- On a host, a URL that begins with no scheme is a path as it is, or from the directory of the
page on.  If a marker occurs in it nevertheless, what is in front of the first one is refused as
a scheme. -/
theorem resolve_of_no_scheme (hurl : Text.trim url.toList ≠ [])
    (hscheme : hasScheme (Text.trim url.toList) = false) (hauthority : authority ≠ "") :
    let address := Text.trim url.toList
    (¬ marker <:+: address → ∃ directory, IsDirectory page.toList directory ∧
      resolve url authority page = .ok ⟨authority, String.ofList
        (if address.head? = some '/' then address else directory ++ address)⟩) ∧
    (marker <:+: address → ∃ front rest, address = front ++ marker ++ rest ∧
      ¬ marker <:+: front ∧
      resolve url authority page = .error (.unsupportedScheme (String.ofList front))) := by
  intro address
  rw [resolve_of_ne_nil hurl]
  constructor
  · intro hnone
    refine ⟨_, isDirectory_directory page.toList, ?_⟩
    rw [splitAtScheme?_eq_none_iff.mpr hnone]
    dsimp only
    rw [ofPath, if_neg (by rwa [String.isEmpty_iff])]
    split <;> rfl
  · intro hmarker
    cases hsplit : splitAtScheme? address with
    | none => exact absurd hmarker (splitAtScheme?_eq_none_iff.mp hsplit)
    | some parts =>
      obtain ⟨front, rest⟩ := parts
      obtain ⟨haddress, hfirst⟩ := splitAtScheme?_eq_some_iff.mp hsplit
      refine ⟨front, rest, haddress, hfirst, ?_⟩
      have hserved : ¬ isServed front := by
        intro hserved
        have hhas := hasScheme_of_isServed hserved rest
        rw [← haddress, hscheme] at hhas
        cases hhas
      show ofAbsolute address front rest = _
      rw [ofAbsolute, if_pos (by simpa using hserved)]

/-- A URL with blanks around it, on a page that has a marker in its query. -/
theorem resolve_of_file_name :
    Text.trim " nav.html ".toList ≠ [] ∧ hasScheme (Text.trim " nav.html ".toList) = false ∧
      ¬ marker <:+: Text.trim " nav.html ".toList ∧
      (∃ directory, IsDirectory "/shop/index?from=http://home/".toList directory ∧
        resolve " nav.html " "www" "/shop/index?from=http://home/" =
          .ok ⟨"www", String.ofList (directory ++ Text.trim " nav.html ".toList)⟩) ∧
      resolve " nav.html " "www" "/shop/index?from=http://home/" =
        .ok ⟨"www", "/shop/nav.html"⟩ := by
  have haddress : Text.trim " nav.html ".toList = ['n', 'a', 'v', '.', 'h', 't', 'm', 'l'] := rfl
  have hurl : Text.trim " nav.html ".toList ≠ [] := by rw [haddress]; decide
  have hscheme : hasScheme (Text.trim " nav.html ".toList) = false := by rw [haddress]; decide
  have hmarker : ¬ marker <:+: Text.trim " nav.html ".toList := by rw [haddress]; decide
  have hhead : (Text.trim " nav.html ".toList).head? ≠ some '/' := by rw [haddress]; decide
  obtain ⟨directory, hdirectory, hresolve⟩ :=
    (@resolve_of_no_scheme " nav.html " "www" "/shop/index?from=http://home/" hurl hscheme
      (by decide)).1 hmarker
  rw [if_neg hhead] at hresolve
  exact ⟨hurl, hscheme, hmarker, ⟨directory, hdirectory, hresolve⟩, rfl⟩

/-- A path that begins with `/` is refused for the marker in its query. -/
theorem resolve_of_marker_in_query :
    let address := Text.trim "/login?next=http://home/".toList
    hasScheme address = false ∧ address.head? = some '/' ∧
      resolve "/login?next=http://home/" "www" "/" =
        .error (.unsupportedScheme "/login?next=http") :=
  ⟨rfl, rfl, rfl⟩

/-! ## What is sent -/

/-- What follows the marker of a URL has a path: there is a `/` in it, and no `?` before that. -/
def HasPath (rest : List Char) : Prop :=
  ∃ host tail, rest = host ++ '/' :: tail ∧ '/' ∉ host ∧ '?' ∉ host

theorem not_isHostChar_iff {c : Char} : isHostChar c = false ↔ c = '/' ∨ c = '?' := by
  rw [isHostChar, Bool.and_eq_false_iff, bne_eq_false_iff_eq, bne_eq_false_iff_eq]

theorem notMem_of_isHostChar (host : List Char) (h : ∀ c ∈ host, isHostChar c) :
    '/' ∉ host ∧ '?' ∉ host :=
  ⟨fun hmem => absurd (h _ hmem) (by decide), fun hmem => absurd (h _ hmem) (by decide)⟩

theorem hasPath_iff {rest : List Char} :
    HasPath rest ↔ (rest.dropWhile isHostChar).head? = some '/' := by
  constructor
  · rintro ⟨host, tail, rfl, hslash, hmark⟩
    have hhost : ∀ c ∈ host, isHostChar c := by
      intro c hc
      rw [← Bool.not_eq_false, not_isHostChar_iff]
      rintro (rfl | rfl)
      · exact hslash hc
      · exact hmark hc
    rw [List.dropWhile_append_of_pos hhost, List.dropWhile_cons_of_neg (by decide)]
    rfl
  · intro hhead
    obtain ⟨tail, htail⟩ := List.head?_eq_some_iff.mp hhead
    refine ⟨rest.takeWhile isHostChar, tail, ?_, ?_⟩
    · rw [← htail, List.takeWhile_append_dropWhile]
    · exact notMem_of_isHostChar _ fun c hc => List.mem_takeWhile_imp hc

theorem pathAfterHost_eq (rest : List Char) :
    pathAfterHost rest = if rest.head? = some '/' then rest else '/' :: rest := by
  cases rest with
  | nil => rfl
  | cons c rest =>
    by_cases hc : c = '/'
    · subst hc
      rfl
    · rw [if_neg (by simpa using hc), pathAfterHost]
      simpa using hc

theorem head?_pathAfterHost (rest : List Char) : (pathAfterHost rest).head? = some '/' := by
  rw [pathAfterHost_eq]
  split
  · assumption
  · rfl

theorem ofAbsolute_eq_ok {address scheme after : List Char} {target : Target}
    (h : ofAbsolute address scheme after = .ok target) :
    target.authority ≠ "" ∧ target.authority.toList = after.takeWhile isHostChar ∧
      target.path.toList = pathAfterHost (after.dropWhile isHostChar) := by
  rw [ofAbsolute] at h
  split at h
  · cases h
  · dsimp only at h
    split at h
    · cases h
    · rename_i hhost
      cases h
      refine ⟨?_, String.toList_ofList, String.toList_ofList⟩
      rwa [ne_eq, ← String.toList_eq_nil_iff, String.toList_ofList, ← List.isEmpty_iff]

theorem ofPath_eq_ok {address : List Char} {target : Target}
    (h : ofPath address authority page = .ok target)
    (hpage : page.toList = [] ∨ page.toList.head? = some '/') :
    target.authority ≠ "" ∧ target.path.toList.head? = some '/' := by
  rw [ofPath] at h
  split at h
  · cases h
  · rename_i hauthority
    have hne : authority ≠ "" := by rwa [String.isEmpty_iff] at hauthority
    split at h
    · rename_i hhead
      cases h
      exact ⟨hne, by rwa [String.toList_ofList]⟩
    · cases h
      have hdirectory := (isDirectory_directory page.toList).head?_eq hpage
      refine ⟨hne, ?_⟩
      rw [String.toList_ofList, List.head?_append, hdirectory]
      rfl

/-- What a URL is resolved to can be sent, and nothing of a URL that names its host is lost: its
parts are the URL again, but for the `/` that is put in where it has no path. -/
theorem usable_of_resolve {target : Target} (hpage : page = "" ∨ page.toList.head? = some '/')
    (h : resolve url authority page = .ok target) :
    target.authority ≠ "" ∧ target.path.toList.head? = some '/' ∧
    ∀ scheme rest, Text.trim url.toList = scheme ++ marker ++ rest →
      (scheme.map Char.toLower = ['h', 't', 't', 'p'] ∨
        scheme.map Char.toLower = ['h', 't', 't', 'p', 's']) →
      '/' ∉ target.authority.toList ∧ '?' ∉ target.authority.toList ∧
      (HasPath rest →
        scheme ++ marker ++ target.authority.toList ++ target.path.toList =
          Text.trim url.toList) ∧
      (¬ HasPath rest → ∃ query,
        scheme ++ marker ++ target.authority.toList ++ query = Text.trim url.toList ∧
          target.path.toList = '/' :: query) := by
  have hroot : page.toList = [] ∨ page.toList.head? = some '/' :=
    hpage.imp_left String.toList_eq_nil_iff.mpr
  have hurl : Text.trim url.toList ≠ [] := by
    intro hnil
    rw [resolve, hnil] at h
    cases h
  rw [resolve_of_ne_nil hurl] at h
  cases hsplit : splitAtScheme? (Text.trim url.toList) with
  | none =>
    rw [hsplit] at h
    obtain ⟨hauthority, hpath⟩ := ofPath_eq_ok h hroot
    refine ⟨hauthority, hpath, ?_⟩
    intro scheme rest haddress hscheme
    -- a URL with a marker is not read as a path
    apply absurd (splitAtScheme?_eq_none_iff.mp hsplit)
    rw [haddress, not_not]
    exact List.infix_append scheme marker rest
  | some parts =>
    obtain ⟨front, after⟩ := parts
    rw [hsplit] at h
    obtain ⟨hne, hauthority, hpath⟩ := ofAbsolute_eq_ok h
    refine ⟨hne, by rw [hpath, head?_pathAfterHost], ?_⟩
    intro scheme rest haddress hscheme
    have hfirst := splitAtScheme?_of_isServed (isServed_iff.mpr hscheme) rest
    rw [← haddress, hsplit] at hfirst
    cases hfirst
    have hhost := notMem_of_isHostChar target.authority.toList fun c hc =>
      List.mem_takeWhile_imp (hauthority ▸ hc)
    have hwhole : target.authority.toList ++ after.dropWhile isHostChar = after := by
      rw [hauthority, List.takeWhile_append_dropWhile]
    refine ⟨hhost.1, hhost.2, ?_, ?_⟩
    · intro hhas
      rw [hpath, pathAfterHost_eq, if_pos (hasPath_iff.mp hhas), List.append_assoc, hwhole,
        haddress]
    · intro hhas
      refine ⟨after.dropWhile isHostChar, ?_, ?_⟩
      · rw [List.append_assoc, hwhole, haddress]
      · rw [hpath, pathAfterHost_eq, if_neg (mt hasPath_iff.mpr hhas)]

/-- A host with a query and no path, where there is a `/` in the query. -/
theorem usable_of_resolve_query :
    resolve " HTTPS://cdn?to=/a " "www" "" = .ok ⟨"cdn", "/?to=/a"⟩ ∧
      ¬ HasPath "cdn?to=/a".toList ∧
      ∃ query, "HTTPS".toList ++ marker ++ "cdn".toList ++ query = "HTTPS://cdn?to=/a".toList ∧
        "/?to=/a".toList = '/' :: query := by
  have hresolve : resolve " HTTPS://cdn?to=/a " "www" "" = .ok ⟨"cdn", "/?to=/a"⟩ := rfl
  have hrest : "cdn?to=/a".toList = ['c', 'd', 'n', '?', 't', 'o', '=', '/', 'a'] := rfl
  have hhas : ¬ HasPath "cdn?to=/a".toList := by rw [hasPath_iff, hrest]; decide
  obtain ⟨-, -, hparts⟩ := usable_of_resolve (Or.inl rfl) hresolve
  obtain ⟨-, -, -, hquery⟩ := hparts "HTTPS".toList "cdn?to=/a".toList rfl (Or.inr rfl)
  exact ⟨hresolve, hhas, hquery hhas⟩

end Target
end Include
end EdgeIncludes
