import Mathlib.Data.List.DropRight
import Playground.Proofs.Url.Hosts
import Playground.Proofs.Url.Segments

/-!
# Texts behind an address

An address of the web without a query and a fragment can be gone on with a slash and a text.
The text decides the query and the fragment, and adds to the path, where it may also climb up
again.  All that stands in front of the path is as it was (`exists_read?_behind`).

    https://user:pw@example.org:8080/a/   /text
    kept                             left of, or climbed up from

What counts depends on the end of the address.  Slashes there make room for the one that is put
behind them, and blanks there count as soon as something is put behind them (`Front`).  Behind
a host or a port they leave no address at all, for any text.
-/

namespace Playground.Url

open Text

/-! ## Ends of a text -/

/-- The characters of a text without its tabs and line ends. -/
def lasting (s : List Char) : List Char :=
  s.filter fun c => !(c = '\t' || c = '\n' || c = '\r')

theorem lasting_append (a b : List Char) : lasting (a ++ b) = lasting a ++ lasting b :=
  List.filter_append ..

theorem counted_eq (s : List Char) :
    counted s = lasting ((s.dropWhile isEdge).rdropWhile isEdge) := rfl

/-- Nothing at the end of the text is left out when an address is read. -/
def EndsPlainly (w : List Char) : Prop := ∀ c ∈ w.getLast?, isEdge c = false

theorem endsPlainly_nil : EndsPlainly [] := fun _ hc => nomatch hc

theorem rdropWhile_isEdge {w : List Char} (hw : EndsPlainly w) (a : List Char) :
    (a ++ '/' :: w).rdropWhile isEdge = a ++ '/' :: w := by
  refine List.rdropWhile_eq_self_iff.mpr fun hne => ?_
  rw [Bool.not_eq_true]
  have hlast : (a ++ '/' :: w).getLast? = some (w.getLast?.getD '/') := by
    rw [List.getLast?_append, List.getLast?_cons, Option.some_or]
  rw [List.getLast?_eq_some_getLast hne] at hlast
  rw [Option.some.inj hlast]
  cases hc : w.getLast? with
  | none => decide
  | some c => exact hw c hc

/-- Up to a slash everything but blanks at the start counts. -/
theorem counted_append_slash {w : List Char} (hw : EndsPlainly w) (a : List Char) :
    counted (a ++ '/' :: w) = lasting (a.dropWhile isEdge) ++ '/' :: lasting w := by
  rw [counted_eq, dropWhile_append_cons (by decide), rdropWhile_isEdge hw, lasting_append]
  rfl

theorem exists_lasting_dropWhile_eq (a : List Char) :
    ∃ e, lasting (a.dropWhile isEdge) = counted a ++ e ∧ ∀ c ∈ e, isEdge c = true := by
  refine ⟨lasting ((a.dropWhile isEdge).rtakeWhile isEdge), ?_, fun c hc => ?_⟩
  · rw [counted_eq, ← lasting_append, List.rdropWhile_append_rtakeWhile]
  · exact List.mem_rtakeWhile_imp (List.mem_of_mem_filter hc)

/-! ## Behind a colon -/

/-- What can not go on with a scheme and does not end it is put behind the rest. -/
theorem splitScheme?_append {c : Char} (hc : isSchemeChar c = false) (hcolon : c ≠ ':')
    (a t : List Char) :
    splitScheme? (a ++ c :: t) = (splitScheme? a).map fun p => (p.1, p.2 ++ c :: t) := by
  unfold splitScheme?
  rw [dropWhile_append_cons hc, takeWhile_append_cons hc]
  cases a.dropWhile isSchemeChar with
  | nil => simp [hcolon]
  | cons d r =>
    by_cases hd : d = ':'
    · subst hd
      simp only [List.cons_append]
      split <;> rfl
    · simp [hd]

/-- What stands behind the scheme, when slashes at the end are taken off and blanks at the end
count. -/
inductive Front : List Char → List Char → Prop where
  /-- There are slashes at the end. -/
  | slashes (r t : List Char) (all : ∀ c ∈ t, c = '/') : Front (r ++ '/' :: t) r
  /-- There are none, but there may be blanks. -/
  | blanks (r e : List Char) (all : ∀ c ∈ e, isEdge c = true) : Front r (r ++ e)

/-- The text without the slashes at its end. -/
def trimmed (s : List Char) : List Char := s.rdropWhile (· = '/')

theorem trimmed_append_slashes (s : List Char) :
    ∃ t, s = trimmed s ++ t ∧ ∀ c ∈ t, c = '/' :=
  ⟨s.rtakeWhile (· = '/'), List.rdropWhile_append_rtakeWhile.symm,
    fun _ hc => by simpa using List.mem_rtakeWhile_imp hc⟩

theorem endsPlainly_of_slashes {t : List Char} (ht : ∀ c ∈ t, c = '/') : EndsPlainly t := by
  intro c hc
  rw [ht c (List.mem_of_getLast? hc)]
  decide

theorem lasting_of_slashes {t : List Char} (ht : ∀ c ∈ t, c = '/') : lasting t = t := by
  refine List.filter_eq_self.mpr fun c hc => ?_
  rw [ht c hc]
  decide

/-- A text behind an address is read behind the same scheme. -/
theorem exists_front {s scheme rest : List Char}
    (h : splitScheme? (counted s) = some (scheme, rest)) :
    ∃ r, Front rest r ∧ ∀ w, EndsPlainly w →
      splitScheme? (counted (trimmed s ++ '/' :: w)) = some (scheme, r ++ '/' :: lasting w) := by
  have hslash : ∀ a w, splitScheme? (a ++ '/' :: w) =
      (splitScheme? a).map fun p => (p.1, p.2 ++ '/' :: w) :=
    splitScheme?_append (by decide) (by decide)
  suffices hfront : ∃ r, Front rest r ∧
      splitScheme? (lasting ((trimmed s).dropWhile isEdge)) = some (scheme, r) by
    obtain ⟨r, hr, hsplit⟩ := hfront
    refine ⟨r, hr, fun w hw => ?_⟩
    rw [counted_append_slash hw, hslash, hsplit]
    rfl
  obtain ⟨t, hs, ht⟩ := trimmed_append_slashes s
  cases t with
  | nil =>
    rw [List.append_nil] at hs
    rw [← hs]
    obtain ⟨e, he, hedges⟩ := exists_lasting_dropWhile_eq s
    refine ⟨rest ++ e, .blanks rest e hedges, ?_⟩
    rw [he]
    cases e with
    | nil => rwa [List.append_nil, List.append_nil]
    | cons c e =>
      have hc : isEdge c = true := hedges c (List.mem_cons_self ..)
      have hnot : isSchemeChar c = false ∧ c ≠ ':' := by
        have hall : ∀ n ≤ 0x20, isSchemeChar (Char.ofNat n) = false ∧ Char.ofNat n ≠ ':' := by
          decide
        rw [← Char.ofNat_toNat c]
        exact hall _ (of_decide_eq_true hc)
      rw [splitScheme?_append hnot.1 hnot.2, h]
      rfl
  | cons c t =>
    obtain rfl : c = '/' := ht c (List.mem_cons_self ..)
    have ht' : ∀ c ∈ t, c = '/' := fun c hc => ht c (List.mem_cons_of_mem _ hc)
    rw [hs, counted_append_slash (endsPlainly_of_slashes ht'), hslash, lasting_of_slashes ht'] at h
    obtain ⟨⟨scheme, r⟩, hr, heq⟩ := Option.map_eq_some_iff.mp h
    cases heq
    exact ⟨r, .slashes r t ht', hr⟩

/-! ## Query and fragment -/

theorem cut_append_of_notMem {sep : Char} {a : List Char} (h : sep ∉ a) (w : List Char) :
    cut sep (a ++ w) = (a ++ (cut sep w).1, (cut sep w).2) := by
  unfold cut
  rw [splitFirst?_append_of_notMem h]
  cases splitFirst? sep w <;> rfl

/-- A text without the separator is not cut. -/
theorem cut_of_notMem {sep : Char} {s : List Char} (h : sep ∉ s) : cut sep s = (s, none) := by
  have hcut := cut_append_of_notMem h []
  rw [List.append_nil] at hcut
  rw [hcut, show cut sep [] = ([], none) from rfl, List.append_nil]

theorem cut_isPrefix (sep : Char) (s : List Char) : (cut sep s).1 <+: s := by
  unfold cut
  cases hsplit : splitFirst? sep s with
  | none => exact List.prefix_rfl
  | some p => exact ⟨sep :: p.2, (eq_of_splitFirst? hsplit).symm⟩

/-- The separator is not in front of the cut. -/
theorem notMem_cut (sep : Char) (s : List Char) : sep ∉ (cut sep s).1 := by
  by_cases hmem : sep ∈ s
  · obtain ⟨a, b, rfl, hsep⟩ := List.eq_append_cons_of_mem hmem
    rw [cut, splitFirst?_append hsep]
    exact hsep
  · rwa [cut_of_notMem hmem]

theorem notMem_of_cut {sep : Char} {s : List Char} (h : (cut sep s).2 = none) : sep ∉ s := by
  intro hmem
  obtain ⟨a, b, rfl, hsep⟩ := List.eq_append_cons_of_mem hmem
  rw [cut, splitFirst?_append hsep] at h
  cases h

/-! ## Host and path -/

/-- The host, and what stands with it, of what stands behind the scheme. -/
def authorityText (r : List Char) : List Char :=
  (r.dropWhile (isSlash true)).takeWhile fun c => !isSlash true c

/-- The path of what stands behind the scheme. -/
def pathText (r : List Char) : List Char :=
  (r.dropWhile (isSlash true)).dropWhile fun c => !isSlash true c

theorem authorityText_eq_nil_iff {r : List Char} :
    authorityText r = [] ↔ ∀ c ∈ r, isSlash true c = true := by
  constructor
  · intro h
    rw [← List.dropWhile_eq_nil_iff]
    unfold authorityText at h
    cases hdrop : r.dropWhile (isSlash true) with
    | nil => rfl
    | cons c b =>
      have hc : isSlash true c = false := eq_false_of_head?_dropWhile (by rw [hdrop]; rfl)
      rw [hdrop, List.takeWhile_cons_of_pos (by rw [hc]; rfl)] at h
      cases h
  · intro h
    rw [authorityText, List.dropWhile_eq_nil_iff.mpr h, List.takeWhile_nil]

/-- Only the slashes in front of the host are left out. -/
theorem dropWhile_isSlash_append {r : List Char} (h : authorityText r ≠ []) (t : List Char) :
    (r ++ t).dropWhile (isSlash true) = r.dropWhile (isSlash true) ++ t := by
  rw [List.dropWhile_append, if_neg]
  rw [List.isEmpty_iff, List.dropWhile_eq_nil_iff, ← authorityText_eq_nil_iff]
  exact h

theorem authorityText_append_slash {r : List Char} (h : authorityText r ≠ []) (t : List Char) :
    authorityText (r ++ '/' :: t) = authorityText r := by
  rw [authorityText, dropWhile_isSlash_append h]
  exact takeWhile_append_cons (by decide) _ t

theorem pathText_append_slash {r : List Char} (h : authorityText r ≠ []) (t : List Char) :
    pathText (r ++ '/' :: t) = pathText r ++ '/' :: t := by
  rw [pathText, dropWhile_isSlash_append h]
  exact dropWhile_append_cons (by decide) _ t

namespace Front

variable {rest r : List Char}

theorem notMem (h : Front rest r) {sep : Char} (hsep : isEdge sep = false) (hmem : sep ∉ rest) :
    sep ∉ r := by
  cases h with
  | slashes r t _ => exact fun hr => hmem (List.mem_append_left _ hr)
  | blanks r e all =>
    rw [List.mem_append, not_or]
    exact ⟨hmem, notMem_of_edges all hsep⟩

theorem authorityText_ne_nil (h : Front rest r) (hne : authorityText rest ≠ []) :
    authorityText r ≠ [] := by
  rw [Ne, authorityText_eq_nil_iff] at hne ⊢
  intro hr
  refine hne ?_
  cases h with
  | slashes r t all =>
    intro c hc
    rcases List.mem_append.mp hc with hc | hc
    · exact hr c hc
    · have hslash : c = '/' := (List.mem_cons.mp hc).elim id (all c)
      rw [hslash]
      decide
  | blanks r e _ => exact fun c hc => hr c (List.mem_append_left e hc)

/-- The host is the same, or some blanks stand behind it. -/
theorem exists_authorityText_eq (h : Front rest r) (hne : authorityText rest ≠ []) :
    ∃ e, authorityText r = authorityText rest ++ e ∧ ∀ c ∈ e, isEdge c = true := by
  have hr := h.authorityText_ne_nil hne
  cases h with
  | slashes r t _ => exact ⟨[], by rw [authorityText_append_slash hr, List.append_nil], by simp⟩
  | blanks r e all =>
    rw [authorityText, dropWhile_isSlash_append hne, List.takeWhile_append]
    split
    · next hlength =>
      refine ⟨e.takeWhile fun c => !isSlash true c, ?_, fun c hc => ?_⟩
      · rw [authorityText, (List.takeWhile_prefix _).eq_of_length hlength]
      · exact all c ((List.takeWhile_prefix _).subset hc)
    · exact ⟨[], (List.append_nil _).symm, by simp⟩

end Front

/-! ## Addresses of the web -/

section ToAscii

variable {toAscii : ToAscii}

/-- The scheme is one of the web, and not that of files. -/
def IsHttp (scheme : List Char) : Prop := scheme = "http".toList ∨ scheme = "https".toList

theorem IsHttp.isWeb {scheme : List Char} (h : IsHttp scheme) : isWeb scheme = true := by
  rcases h with rfl | rfl <;> decide

/-- The host and what stands with it do not depend on the path. -/
theorem withAuthority?_eq {scheme : List Char} (hweb : isWeb scheme = true)
    (authority path : List Char) (query fragment : Option (List Char)) :
    withAuthority? toAscii scheme authority path query fragment =
      (withAuthority? toAscii scheme authority [] none none).map fun u => { u with
        path := .segments (segments true path)
        query := query.map (Percent.encode (keptInQuery true))
        fragment := fragment.map (Percent.encode keptInFragment) } := by
  unfold withAuthority?
  simp only [hweb, true_or, if_true]
  cases splitLast? '@' authority
  all_goals
    dsimp only
    split
    · rfl
    · generalize Host.read? toAscii true _ = host?
      generalize port? scheme _ = port?
      cases host? with
      | none => rfl
      | some host => cases port? <;> rfl

theorem scheme_of_withAuthority? {scheme authority path : List Char}
    {query fragment : Option (List Char)} {u : Url}
    (h : withAuthority? toAscii scheme authority path query fragment = some u) :
    u.scheme = scheme := by
  unfold withAuthority? at h
  cases hsplit : splitLast? '@' authority
  all_goals
    rw [hsplit] at h
    dsimp only at h
    split at h
    · cases h
    · obtain ⟨host, -, h⟩ := Option.bind_eq_some_iff.mp h
      obtain ⟨port, -, h⟩ := Option.bind_eq_some_iff.mp h
      cases h
      rfl

theorem withAuthority?_nil {scheme : List Char} (hweb : isWeb scheme = true) (path : List Char)
    (query fragment : Option (List Char)) :
    withAuthority? toAscii scheme [] path query fragment = none := by
  unfold withAuthority?
  simp [hweb, splitLast?, splitFirst?, splitPort]

theorem scheme_of_fileUrl? {rest : List Char} {query fragment : Option (List Char)} {u : Url}
    (h : fileUrl? toAscii rest query fragment = some u) : u.scheme = "file".toList := by
  unfold fileUrl? at h
  dsimp only at h
  split at h
  · cases h; rfl
  · split at h
    · cases h; rfl
    · exact scheme_of_withAuthority? h
  · cases h; rfl
  · cases h; rfl

/-- The scheme of an address stands at its start. -/
theorem exists_of_read? {text : List Char} {u : Url} (h : read? toAscii text = some u) :
    ∃ rest, splitScheme? (counted text) = some (u.scheme, rest) := by
  unfold read? at h
  obtain ⟨⟨scheme, rest⟩, hsplit, h⟩ := Option.bind_eq_some_iff.mp h
  refine ⟨rest, ?_⟩
  suffices hscheme : u.scheme = scheme by rw [hsplit, hscheme]
  dsimp only at h
  split at h
  · next hfile => rw [scheme_of_fileUrl? h, hfile]
  · split at h
    · exact scheme_of_withAuthority? h
    · split at h
      · split at h
        · cases h; rfl
        · exact scheme_of_withAuthority? h
      · cases h; rfl
      · cases h; rfl

/-- An address of the web is read in parts. -/
theorem read?_of_splitScheme? {text scheme rest : List Char}
    (hsplit : splitScheme? (counted text) = some (scheme, rest)) (h : IsHttp scheme) :
    read? toAscii text =
      let front := (cut '?' (cut '#' rest).1).1
      (withAuthority? toAscii scheme (authorityText front) [] none none).map fun u => { u with
        path := .segments (segments true (pathText front))
        query := (cut '?' (cut '#' rest).1).2.map (Percent.encode (keptInQuery true))
        fragment := (cut '#' rest).2.map (Percent.encode keptInFragment) } := by
  have hfile : scheme ≠ "file".toList := by
    rcases h with rfl | rfl <;> decide
  unfold read?
  rw [hsplit]
  simp only [Option.bind_eq_bind, Option.bind_some, if_neg hfile, h.isWeb, if_true]
  exact withAuthority?_eq h.isWeb _ _ _ _

/-! ## A text behind an address -/

theorem exists_segments_eq (a : List Char) :
    ∃ done, ∀ w, segments true (a ++ '/' :: w) = resolve done (pieces w) := by
  cases a with
  | nil => exact ⟨[], fun w => rfl⟩
  | cons c a =>
    refine ⟨climb [] (pieces a), fun w => ?_⟩
    rw [← resolve_append [] (pieces a) (pieces_ne_nil w), ← pieces_append_slash]
    rfl

/-- The text is read as an address of the web without a query and a fragment. -/
structure IsBase (toAscii : ToAscii) (s : List Char) (u : Url) : Prop where
  read : read? toAscii s = some u
  http : IsHttp u.scheme
  query : u.query = none
  fragment : u.fragment = none

/-- The address with a text behind the segments in `done`, which has the last one first. -/
def goOn (u : Url) (done : List (List Char)) (w : List Char) : Url where
  scheme := u.scheme
  username := u.username
  password := u.password
  host := u.host
  port := u.port
  path := .segments (resolve done (pieces (cut '?' (cut '#' w).1).1))
  query := (cut '?' (cut '#' w).1).2.map (Percent.encode (keptInQuery true))
  fragment := (cut '#' w).2.map (Percent.encode keptInFragment)

/-- Whatever follows the address and a slash, the address goes on with it. -/
def GoesOn (toAscii : ToAscii) (s : List Char) (u : Url) (done : List (List Char)) : Prop :=
  ∀ w, EndsPlainly w → read? toAscii (trimmed s ++ '/' :: w) = some (u.goOn done (lasting w))

/-- What stands behind the scheme and is neither in a query nor in a fragment. -/
theorem IsBase.exists_rest {s : List Char} {u : Url} (h : IsBase toAscii s u) :
    ∃ rest place, splitScheme? (counted s) = some (u.scheme, rest) ∧ '#' ∉ rest ∧ '?' ∉ rest ∧
      withAuthority? toAscii u.scheme (authorityText rest) [] none none = some place ∧
      u = { place with path := u.path, query := none, fragment := none } := by
  obtain ⟨rest, hrest⟩ := exists_of_read? h.read
  have hread := h.read
  rw [read?_of_splitScheme? hrest h.http] at hread
  dsimp only at hread
  obtain ⟨place, hplace, hu⟩ := Option.map_eq_some_iff.mp hread
  have hsign : '#' ∉ rest := by
    have hfragment := h.fragment
    rw [← hu] at hfragment
    exact notMem_of_cut (Option.map_eq_none_iff.mp hfragment)
  rw [cut_of_notMem hsign] at hplace hu
  have hmark : '?' ∉ rest := by
    have hquery := h.query
    rw [← hu] at hquery
    exact notMem_of_cut (Option.map_eq_none_iff.mp hquery)
  rw [cut_of_notMem hmark] at hplace hu
  exact ⟨rest, place, hrest, hsign, hmark, hplace, by rw [← hu]; rfl⟩

/-- Behind an address no text makes an address, or every text only goes on with it. -/
theorem IsBase.exists_read?_behind (hlaw : toAscii.Lawful) {s : List Char} {u : Url}
    (h : IsBase toAscii s u) :
    (∀ w, EndsPlainly w → read? toAscii (trimmed s ++ '/' :: w) = none) ∨
      ∃ done, GoesOn toAscii s u done := by
  obtain ⟨rest, place, hrest, hsign, hmark, hplace, hu⟩ := h.exists_rest
  obtain ⟨r, hfront, hread⟩ := exists_front hrest
  -- An address of the web has a host.
  have hhost : authorityText rest ≠ [] := by
    intro hnil
    rw [hnil, withAuthority?_nil h.http.isWeb] at hplace
    cases hplace
  have hhost' := hfront.authorityText_ne_nil hhost
  obtain ⟨e, he, hedges⟩ := hfront.exists_authorityText_eq hhost
  obtain ⟨done, hdone⟩ := exists_segments_eq (pathText r)
  have hcut : ∀ {sep}, isEdge sep = false → sep ≠ '/' → sep ∉ rest → ∀ w,
      cut sep (r ++ '/' :: w) = (r ++ '/' :: (cut sep w).1, (cut sep w).2) := by
    intro sep hedge hslash hsep w
    have hmem : sep ∉ r ++ ['/'] := by
      rw [List.mem_append, List.mem_singleton, not_or]
      exact ⟨hfront.notMem hedge hsep, hslash⟩
    rw [List.append_cons, cut_append_of_notMem hmem, ← List.append_cons]
  have hbehind : ∀ w, EndsPlainly w → read? toAscii (trimmed s ++ '/' :: w) =
      (withAuthority? toAscii u.scheme (authorityText rest ++ e) [] none none).map fun v => { v with
        path := (u.goOn done (lasting w)).path
        query := (u.goOn done (lasting w)).query
        fragment := (u.goOn done (lasting w)).fragment } := by
    intro w hw
    rw [read?_of_splitScheme? (hread w hw) h.http, hcut (by decide) (by decide) hsign,
      hcut (by decide) (by decide) hmark]
    dsimp only
    rw [authorityText_append_slash hhost', pathText_append_slash hhost', hdone, he]
    rfl
  by_cases hempty : e = []
  · refine Or.inr ⟨done, fun w hw => ?_⟩
    rw [hbehind w hw, hempty, List.append_nil, hplace, hu]
    rfl
  · refine Or.inl fun w hw => ?_
    rw [hbehind w hw, withAuthority?_append_edges hlaw hedges hempty h.http.isWeb]
    rfl

end ToAscii

end Playground.Url
