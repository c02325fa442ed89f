import Playground.Proofs.Url.Joining
import Playground.Service.Compile

/-!
# Where a compiler is asked

The id of a compiler is put into the address of the service as it is.  It does not lead to
another host, whatever it is (`asks_compileEndpoint`).  It may lead to another path there, and it
does so exactly if it is no segment that means it (`IsSegment`), provided that a slash at the end
of the address of the service makes no difference (`IsTidy`).

An id that means another text is no longer than the text, so among the segments of a path no
one but the id itself can mean the id (`isSegment_of_goOn`).  This is what rules out that some
id with slashes, dots and escapes leads to the right path by a detour.
-/

namespace Playground

open Text

namespace Url

/-! ## Segments that mean a text -/

theorem faithful_keptInPath : Percent.Faithful keptInPath := by
  have hall : ∀ n < 256, (keptInPath (UInt8.ofNat n) = true → n < 0x80) ∧
      ((hexValue? (UInt8.ofNat n)).isSome = true → keptInPath (UInt8.ofNat n) = true) := by
    decide +kernel
  have hoctet : ∀ b : UInt8, (keptInPath b = true → b.toNat < 0x80) ∧
      ((hexValue? b).isSome = true → keptInPath b = true) := by
    intro b
    have h := hall b.toNat (UInt8.toNat_lt b)
    rwa [UInt8.ofNat_toNat] at h
  exact ⟨fun b => (hoctet b).1, by decide, fun b => (hoctet b).2⟩

instance (s : List Char) : Decidable (IsDots s) :=
  inferInstanceAs (Decidable (isDot s = true ∨ isDotDot s = true))

/-- The text can stand in an address of the web as one segment, and the segment means it. -/
structure IsSegment (s : List Char) : Prop where
  /-- It holds nothing that ends a segment. -/
  slashes : '/' ∉ s ∧ '\\' ∉ s
  /-- It holds nothing that ends a path. -/
  ends : '?' ∉ s ∧ '#' ∉ s
  /-- It holds nothing that does not count. -/
  counts : lasting s = s
  /-- It means no directory. -/
  dots : ¬ IsDots s
  /-- It holds no escapes. -/
  escapes : Percent.decode? s = some s

instance (s : List Char) : Decidable (IsSegment s) :=
  decidable_of_iff
    (('/' ∉ s ∧ '\\' ∉ s) ∧ ('?' ∉ s ∧ '#' ∉ s) ∧ lasting s = s ∧ ¬ IsDots s ∧
      Percent.decode? s = some s)
    ⟨fun h => ⟨h.1, h.2.1, h.2.2.1, h.2.2.2.1, h.2.2.2.2⟩,
      fun h => ⟨h.slashes, h.ends, h.counts, h.dots, h.escapes⟩⟩

/-- A segment is put behind the other ones, and what follows it behind it. -/
theorem IsSegment.goOn_eq {s t : List Char} (hs : IsSegment s) (ht : IsSegment t) (u : Url)
    (done : List (List Char)) :
    u.goOn done (lasting (s ++ '/' :: t)) = { u with
      path := .segments (done.reverse ++
        [Percent.encode keptInPath s, Percent.encode keptInPath t])
      query := none
      fragment := none } := by
  have hcounts : lasting (s ++ '/' :: t) = s ++ '/' :: t := by
    rw [lasting_append, hs.counts]
    exact congrArg (s ++ '/' :: ·) ht.counts
  have hsign : '#' ∉ s ++ '/' :: t := by simp [hs.ends, ht.ends]
  have hmark : '?' ∉ s ++ '/' :: t := by simp [hs.ends, ht.ends]
  have hpieces : pieces (s ++ '/' :: t) = [s] ++ [t] := by
    rw [pieces_append_slash, pieces_eq_singleton hs.slashes.1 hs.slashes.2,
      pieces_eq_singleton ht.slashes.1 ht.slashes.2]
  have hclimb : climb done [s] = Percent.encode keptInPath s :: done := by
    have hdots := hs.dots
    rw [IsDots, not_or] at hdots
    rw [climb, if_neg hdots.2, if_neg hdots.1, climb]
  rw [hcounts, goOn, cut_of_notMem hsign, cut_of_notMem hmark, hpieces,
    resolve_concat done [s] ht.dots, hclimb, List.reverse_cons, List.append_assoc]
  rfl

/-- Only a segment that means the text can stand for it behind the other ones. -/
theorem isSegment_of_goOn {u : Url} {done : List (List Char)} {s t x y : List Char}
    (hsign : '%' ∉ t)
    (hpath : (u.goOn done (lasting (s ++ '/' :: t))).path = .segments (done.reverse ++ [x, y]))
    (hx : Percent.decode? x = some s) : IsSegment s := by
  obtain ⟨m, hmem, hdots, rfl⟩ := exists_of_resolve_eq (Path.segments.inj hpath)
  rw [Percent.decode?_encode_of_faithful faithful_keptInPath] at hx
  obtain ⟨hpart, hslash, hback⟩ := infix_of_mem_pieces hmem
  have hcut : m <:+: (cut '#' (lasting (s ++ '/' :: t))).1 :=
    hpart.trans (cut_isPrefix '?' _).isInfix
  have hwhole : m <:+: lasting (s ++ '/' :: t) := hcut.trans (cut_isPrefix '#' _).isInfix
  have hself : m = s := by
    have hside : m <:+: lasting s ∨ m <:+: lasting t := by
      rw [lasting_append] at hwhole
      exact infix_of_infix_append_cons hwhole hslash
    rcases hside with h | h
    · exact Percent.eq_of_decode?_of_sublist (h.sublist.trans List.filter_sublist) hx
    · have hnot : '%' ∉ m := fun hc => hsign ((h.sublist.trans List.filter_sublist).subset hc)
      rw [Percent.decode?_of_notMem hnot] at hx
      exact Option.some.inj hx
  subst hself
  refine ⟨⟨hslash, hback⟩, ⟨?_, ?_⟩, ?_, hdots, hx⟩
  · exact fun hm => notMem_cut '?' _ (hpart.subset hm)
  · exact fun hm => notMem_cut '#' _ (hcut.subset hm)
  · exact List.filter_eq_self.mpr fun c hc => (List.mem_filter.mp (hwhole.subset hc)).2

/-! ## Slashes at the end -/

/-- The segments of the path without the slashes at its end. -/
def directory (u : Url) : List (List Char) :=
  match u.path with
  | .segments ss => ss.rdropWhile (· = [])
  | .verbatim _ => []

/-- With one slash at its end the text is the address without slashes at its end, and then one
slash. -/
def IsTidy (toAscii : ToAscii) (s : List Char) (u : Url) : Prop :=
  ∃ v, read? toAscii (trimmed s ++ ['/']) = some v ∧ v.path = .segments (u.directory ++ [[]])

section ToAscii

variable {toAscii : ToAscii}

theorem GoesOn.isTidy_iff {s : List Char} {u : Url} {done : List (List Char)}
    (h : GoesOn toAscii s u done) : IsTidy toAscii s u ↔ done.reverse = u.directory := by
  have hread : read? toAscii (trimmed s ++ ['/']) = some (u.goOn done []) := h [] endsPlainly_nil
  have hpath : (u.goOn done []).path = .segments (done.reverse ++ [[]]) := by
    show Path.segments (resolve done ([] ++ [[]])) = _
    rw [resolve_concat done [] (by decide)]
    rfl
  constructor
  · rintro ⟨v, hv, htidy⟩
    rw [hread] at hv
    rw [← Option.some.inj hv, hpath] at htidy
    exact List.append_cancel_right (Path.segments.inj htidy)
  · intro hdone
    exact ⟨_, hread, by rw [hpath, hdone]⟩

/-- If one text behind the address makes an address, every text goes on with it. -/
theorem IsBase.exists_goesOn (hlaw : toAscii.Lawful) {s w : List Char} {u v : Url}
    (h : IsBase toAscii s u) (hw : EndsPlainly w)
    (hread : read? toAscii (trimmed s ++ '/' :: w) = some v) : ∃ done, GoesOn toAscii s u done := by
  rcases h.exists_read?_behind hlaw with hnone | hgoes
  · rw [hnone w hw] at hread
    cases hread
  · exact hgoes

theorem IsTidy.exists_goesOn (hlaw : toAscii.Lawful) {s : List Char} {u : Url}
    (h : IsBase toAscii s u) (ht : IsTidy toAscii s u) :
    ∃ done, GoesOn toAscii s u done ∧ done.reverse = u.directory := by
  have ⟨v, hv, _⟩ := ht
  obtain ⟨done, hdone⟩ := h.exists_goesOn hlaw endsPlainly_nil hv
  exact ⟨done, hdone, hdone.isTidy_iff.mp ht⟩

end ToAscii

end Url

open Url

/-! ## The address of a compiler -/

/-- What is put behind the address of the service. -/
def endpointTail (id : String) : List Char := id.toList ++ '/' :: "compile".toList

theorem toList_compileEndpoint (base id : String) :
    (compileEndpoint base id).toList = trimmed base.toList ++ '/' :: endpointTail id := by
  simp [compileEndpoint, endpointTail, trimmed, List.rdropWhile]

theorem endsPlainly_endpointTail (id : String) : EndsPlainly (endpointTail id) := by
  intro c hc
  have hlast : (endpointTail id).getLast? = some 'e' := by
    rw [endpointTail, List.getLast?_append]
    rfl
  rw [hlast] at hc
  cases hc
  decide

/-- The address asks the host of `u`, right behind the path of `u`, for the compiler. -/
structure Asks (u : Url) (id : String) (v : Url) : Prop where
  scheme_eq : v.scheme = u.scheme
  host_eq : v.host = u.host
  port_eq : v.port = u.port
  query_eq : v.query = none
  path_eq : ∃ x, v.path = .segments (u.directory ++ [x, "compile".toList]) ∧
    Percent.decode? x = some id.toList

theorem Asks.length_eq {u v : Url} {id : String} (h : Asks u id v) {ss : List (List Char)}
    (hpath : v.path = .segments ss) : ss.length = u.directory.length + 2 := by
  obtain ⟨x, hpath', -⟩ := h.path_eq
  rw [hpath] at hpath'
  rw [Path.segments.inj hpath', List.length_append]
  rfl

/-- A compiler is found again in what its address asks the host for. -/
theorem Asks.eq_of_target {u v v' : Url} {id id' : String} (h : Asks u id v) (h' : Asks u id' v')
    (htarget : v.target = v'.target) : id = id' := by
  obtain ⟨x, hpath, hx⟩ := h.path_eq
  obtain ⟨x', hpath', hx'⟩ := h'.path_eq
  have htext : ∀ {v : Url} {x}, v.query = none →
      v.path = .segments (u.directory ++ [x, "compile".toList]) →
      v.target = u.directory.flatMap ('/' :: ·) ++ ('/' :: x ++ '/' :: "compile".toList) := by
    intro v x hquery hpath
    rw [target, hquery, hpath, Path.text, List.flatMap_append]
    simp
  rw [htext h.query_eq hpath, htext h'.query_eq hpath'] at htarget
  obtain rfl : x = x' :=
    (List.cons.inj (List.append_cancel_right (List.append_cancel_left htarget))).2
  rw [hx] at hx'
  exact String.toList_inj.mp (Option.some.inj hx')

/-- The address under which the compiler is asked does so. -/
def IsAsked (toAscii : ToAscii) (base : String) (u : Url) (id : String) : Prop :=
  ∃ v, read? toAscii (compileEndpoint base id).toList = some v ∧ Asks u id v

theorem isSegment_compile : IsSegment "compile".toList := by decide +kernel

section GoesOn

variable {toAscii : ToAscii} {base : String} {u : Url} {done : List (List Char)}

theorem read?_compileEndpoint (h : GoesOn toAscii base.toList u done) (id : String) :
    read? toAscii (compileEndpoint base id).toList =
      some (u.goOn done (lasting (endpointTail id))) := by
  rw [toList_compileEndpoint]
  exact h _ (endsPlainly_endpointTail id)

theorem exists_goesOn_of_compileEndpoint (hlaw : toAscii.Lawful)
    (h : IsBase toAscii base.toList u) {id : String} {v : Url}
    (hread : read? toAscii (compileEndpoint base id).toList = some v) :
    ∃ done, GoesOn toAscii base.toList u done := by
  rw [toList_compileEndpoint] at hread
  exact h.exists_goesOn hlaw (endsPlainly_endpointTail id) hread

theorem path_of_isSegment {id : String} (hid : IsSegment id.toList) :
    (u.goOn done (lasting (endpointTail id))).path =
      .segments (done.reverse ++ [Percent.encode keptInPath id.toList, "compile".toList]) := by
  have hcompile : Percent.encode keptInPath "compile".toList = "compile".toList := by
    decide +kernel
  rw [endpointTail, hid.goOn_eq isSegment_compile, hcompile]

/-- A compiler is asked exactly if its id is a segment that means it. -/
theorem isAsked_iff (h : GoesOn toAscii base.toList u done) (hdone : done.reverse = u.directory)
    (id : String) : IsAsked toAscii base u id ↔ IsSegment id.toList := by
  constructor
  · rintro ⟨v, hread, hasks⟩
    rw [read?_compileEndpoint h] at hread
    obtain ⟨x, hpath, hx⟩ := hasks.path_eq
    rw [← Option.some.inj hread, ← hdone] at hpath
    exact isSegment_of_goOn (by decide) hpath hx
  · intro hid
    refine ⟨_, read?_compileEndpoint h id, rfl, rfl, rfl, ?_,
      Percent.encode keptInPath id.toList, ?_, ?_⟩
    · rw [endpointTail, hid.goOn_eq isSegment_compile]
    · rw [path_of_isSegment hid, hdone]
    · rw [Percent.decode?_encode_of_faithful faithful_keptInPath, hid.escapes]

/-- If one such compiler is asked, the path of the address has not changed. -/
theorem reverse_eq_of_isAsked (h : GoesOn toAscii base.toList u done) {id : String}
    (hid : IsSegment id.toList) (hasked : IsAsked toAscii base u id) :
    done.reverse = u.directory := by
  obtain ⟨v, hread, hasks⟩ := hasked
  rw [read?_compileEndpoint h] at hread
  obtain ⟨x, hpath, -⟩ := hasks.path_eq
  rw [← Option.some.inj hread, path_of_isSegment hid] at hpath
  exact (List.append_inj' (Path.segments.inj hpath) rfl).1

end GoesOn

/-- A request goes to the address of its compiler, without the user. -/
theorem exists_of_request {toAscii : ToAscii} {base : String} {r : CompileRequest}
    {q : Http.Request} (h : CompileService.request toAscii base r = .ok q) :
    ∃ v, read? toAscii (compileEndpoint base r.compiler).toList = some v ∧
      q.url = v.withoutUser := by
  unfold CompileService.request at h
  split at h
  · cases h
  · next url haddress =>
    cases h
    unfold Http.address at haddress
    split at haddress
    · cases haddress
    · next v hread =>
      refine ⟨v, hread, ?_⟩
      dsimp only at haddress
      repeat' split at haddress
      all_goals cases haddress
      rfl

end Playground
