import CodeIndex.Index.History
import CodeIndex.Proofs.Store.Connecting
import CodeIndex.Proofs.Store.Write

/-!
# Reopening a store

A session keeps its snapshot twice, in memory and in the file.  Whoever opens the file instead of
asking the session gets the same snapshot, as long as the two agree, and what a session writes makes
them agree.
-/

namespace CodeIndex

/-! ## §1 From memory to the file and back -/

/-- A snapshot that was written is read back as it was, bit for bit, whatever was in the file
before; and nothing but a failing step or a folder at its path keeps it from being written. -/
theorem Disk.readSnapshot_of_write (s : Snapshot) (hmodel : s.rows = [] → s.model = none)
    (hincomplete : s.incomplete.Nodup) (fails : WriteStep → Bool) (path : String) (d : Disk) :
    (∀ d', d.write fails path s = (d', .ok ()) → d'.target.readSnapshot = .ok s) ∧
      ((∃ d', d.write fails path s = (d', .ok ())) ↔ (∀ step ∈ Disk.steps s, fails step = false) ∧
        (d.target = .nothing ∨ ∃ content, d.target = .file content)) := by
  refine ⟨fun d' hwrite => ?_, fun ⟨d', hwrite⟩ => ?_, fun ⟨hsteps, htarget⟩ => ?_⟩
  · rw [(Disk.write_eq_ok_iff.1 hwrite).2]
    exact s.readSnapshot_toDatabase hmodel hincomplete
  · have hwritable := (Disk.write_eq_ok_iff.1 hwrite).1
    exact ⟨hwritable.steps, hwritable.target⟩
  · exact ⟨_, Disk.write_eq_ok_iff.2 ⟨⟨hsteps, htarget⟩, rfl⟩⟩

namespace Sample

/-- A snapshot of what could get lost: texts that are escaped, missing and empty values, numbers
that are not numbers, and the same row twice. -/
def oddities : Snapshot :=
  let unit : CodeUnit :=
    ⟨.method, some "", none, "\"\\\n\u0000é", some "", some [], some ["\"\\\u0001", "", "é😀"],
      some [⟨0x7FC00001⟩, ⟨0x80000000⟩]⟩
  let bare : CodeUnit := ⟨.class, none, some "", "", none, none, some [""], some []⟩
  ⟨[⟨"b", "1", unit⟩, ⟨"a", "", bare⟩, ⟨"b", "1", unit⟩, ⟨"", "é", .ofGlobalCode "x"⟩], some "",
    [("b", "1"), ("", "")]⟩

end Sample

/-- Texts that are escaped, missing and empty values and numbers that are none come back as they
were. -/
theorem Disk.readSnapshot_of_write_sample : ∃ d',
    Disk.write (fun _ => false) "index.db" Sample.oddities ⟨.nothing, none⟩ = (d', .ok ()) ∧
      d'.target.readSnapshot = .ok Sample.oddities := by
  obtain ⟨hread, hsuccess⟩ := Disk.readSnapshot_of_write Sample.oddities (by decide) (by decide)
    (fun _ => false) "index.db" ⟨.nothing, none⟩
  obtain ⟨d', hwrite⟩ := hsuccess.2 ⟨fun _ _ => rfl, .inl rfl⟩
  exact ⟨d', hwrite, hread d' hwrite⟩

/-! ## §2 Sessions that agree with their file -/

namespace StoreSession

/-- The file holds what is in memory, and nothing changes when it is connected to. -/
structure Durable (st : StoreSession) : Prop where
  held : st.disk.target.readSnapshot = .ok st.memory
  settled : st.disk.target.isWriteAhead = false

/-- A session that begins with nothing agrees with the file that is not there. -/
theorem durable_fresh : Durable fresh := ⟨rfl, rfl⟩

variable {st : StoreSession}

/-- A new session has what the old one had. -/
theorem Durable.open_eq (h : st.Durable) : StoreSession.open st.disk = (st.disk, .ok st) := by
  rw [StoreSession.open_eq, h.held, Disk.connected_eq_self h.settled]
  rfl

/-- Reading such a file again changes nothing. -/
theorem Durable.reload_eq (h : st.Durable) : st.reload = (st, .ok ()) := by
  rw [StoreSession.reload_eq, h.held, Disk.connected_eq_self h.settled]
  rfl

/-- Changes beside the snapshot's path do not matter. -/
theorem Durable.of_eq {st' : StoreSession} (h : st.Durable) (hmemory : st'.memory = st.memory)
    (htarget : st'.disk.target = st.disk.target) : st'.Durable := by
  refine ⟨?_, ?_⟩
  · rw [hmemory, htarget]
    exact h.held
  · rw [htarget]
    exact h.settled

end StoreSession

end CodeIndex
