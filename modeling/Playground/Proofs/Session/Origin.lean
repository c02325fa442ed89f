import Playground.CommandLine.Execution
import Playground.Proofs.Share.Carrying

/-!
# Where a session comes from

A link begins a session if it carries a text, whatever the text is.  The session has the
fields that the text gives, which may be none, and nothing is stored.  Any other link leaves
the session to the store, and cannot be opened (`link_begins_session`).

So a link to a section of a page may begin a session without any field
(`shared_without_fields`).
-/

namespace Playground.Session

theorem start_of_carries {url : String} {text : List Char} (h : Share.Carries url text)
    (s : Store) : start (some url) s = ⟨.shared, Share.fieldsOfQuery text⟩ := by
  rw [start, Option.bind_some, Share.fields?_eq_some_iff.mpr ⟨text, h, rfl⟩]

theorem start_of_not_carries {url : String} (h : ∀ text, ¬ Share.Carries url text) (s : Store) :
    start (some url) s = ⟨.stored, s.load⟩ := by
  have hnone : Share.fields? url = none := by
    rw [Option.eq_none_iff_forall_ne_some]
    intro fields hfields
    obtain ⟨text, htext, -⟩ := Share.fields?_eq_some_iff.mp hfields
    exact h text htext
  rw [start, Option.bind_some, hnone]

/-- A link that carries a text can be opened. -/
theorem openLink_of_carries {url : String} {text : List Char} (h : Share.Carries url text)
    (m : CommandLine.Machine) (output : Option String) :
    CommandLine.openLink m url output ≠ .failed m.disk (.noState url) := by
  unfold CommandLine.openLink
  rw [start_of_carries h]
  intro heq
  have hfailure := congrArg CommandLine.Outcome.failure heq
  rw [if_neg (not_not.mpr rfl)] at hfailure
  split at hfailure
  · cases hfailure
  · dsimp only at hfailure
    split at hfailure <;> cases hfailure

/-- A link that carries nothing cannot be opened. -/
theorem openLink_of_not_carries {url : String} (h : ∀ text, ¬ Share.Carries url text)
    (m : CommandLine.Machine) (output : Option String) :
    CommandLine.openLink m url output = .failed m.disk (.noState url) := by
  unfold CommandLine.openLink
  rw [start_of_not_carries h]
  rfl

/-- A link begins the session exactly if it carries a text, with the fields that the pieces
of the text give.  Any other link leaves the session to the store.  The text of a link is
empty exactly if its first letter starts with the end mark. -/
theorem link_begins_session (url : String) (s : Store) :
    (∀ text, Share.Carries url text →
      start (some url) s = ⟨.shared, Share.fieldsOfQuery text⟩ ∧
      (start (some url) s).persists = false ∧
      ∀ m output, CommandLine.openLink m url output ≠ .failed m.disk (.noState url)) ∧
    ((∀ text, ¬ Share.Carries url text) →
      start (some url) s = ⟨.stored, s.load⟩ ∧
      (start (some url) s).persists = true ∧
      ∀ m output, CommandLine.openLink m url output = .failed m.disk (.noState url)) ∧
    (∀ text key, ((Share.fieldsOfQuery text).get? key).isSome ↔
      ∃ rest, key.toList ++ '=' :: rest ∈ Text.splitOn '&' text ∧ '=' ∉ key.toList ∧
        (Text.Percent.decode? rest).isSome) ∧
    (Share.Carries url [] ↔ ∃ letters, Share.HasFragment url letters ∧
      Text.Utf8.size letters ≤ Share.maxFragment ∧
      ∃ v values, letters.mapM Share.letterValue? = some (v :: values) ∧ 16 ≤ v ∧ v < 32) := by
  refine ⟨fun text h => ?_, fun h => ?_, fun text key => Share.isSome_get?_fieldsOfQuery,
    Share.carries_nil_iff⟩
  · exact ⟨start_of_carries h s, by rw [start_of_carries h]; rfl, openLink_of_carries h⟩
  · exact ⟨start_of_not_carries h s, by rw [start_of_not_carries h]; rfl,
      openLink_of_not_carries h⟩

/-- A link to a section of a page. -/
def sectionLink : String := "https://example.org/#about"

theorem carries_sectionLink : Share.Carries sectionLink [] := by
  rw [Share.carries_nil_iff]
  refine ⟨"about".toList, ⟨"https://example.org/".toList, "about".toList, ?_, ?_, ?_⟩, ?_, 26,
    [27, 40, 46, 45], ?_, by decide, by decide⟩
  all_goals decide +kernel

/-- The store of a session before. -/
def keptStore : Store := .memory (.ofList [("compiler", "g75")])

theorem link_begins_session_sectionLink :
    start (some sectionLink) keptStore = ⟨.shared, .empty⟩ ∧
      start (some "https://example.org/#@@@") keptStore = ⟨.stored, keptStore.load⟩ := by
  obtain ⟨hcarried, -⟩ := link_begins_session sectionLink keptStore
  obtain ⟨-, hother, -⟩ := link_begins_session "https://example.org/#@@@" keptStore
  refine ⟨(hcarried [] carries_sectionLink).1, (hother fun text htext => ?_).1⟩
  have hnone : Share.fields? "https://example.org/#@@@" = none := by decide +kernel
  cases hnone.symm.trans (Share.fields?_eq_some_iff.mpr ⟨text, htext, rfl⟩)

/-- A link without the key of any field may begin a session. -/
theorem shared_without_fields :
    ¬ ∀ (url : String) (s : Store), (start (some url) s).origin = .shared →
      ∃ key ∈ State.keys, ((start (some url) s).fields.get? key).isSome := by
  intro h
  obtain ⟨key, -, hkey⟩ := h sectionLink keptStore (by rw [start_of_carries carries_sectionLink])
  rw [start_of_carries carries_sectionLink] at hkey
  cases hkey

end Playground.Session
