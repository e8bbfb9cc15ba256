import BlockLedger.Proofs.Journal.Faults
import BlockLedger.Proofs.Journal.Torn

/-!
# Recovery of a file that has been cut

A file may be cut anywhere: between two records, within one, within a character or within an escape.
Opening the journal then leaves the longest part at the front in which no record is cut off
(`LongestComplete`), and what is read from it are the blocks whose records lie wholly in front of the
cut. The journal is settled again, so opening it once more changes nothing, and what is appended is
read behind those blocks (`Journal.openAt_cut`).

Where the records end is where their line feeds are, and there are no others in the file. So all
this rests on what is known of complete byte strings and of records that are cut off, and on the bytes
that appends have left in the file (`Journal.Settled.appendEach`).
-/

namespace BlockLedger

/-- **The longest part of a byte string** at its front in which no record is cut off. -/
structure LongestComplete (part bytes : Bytes) : Prop where
  front : part <+: bytes
  complete : Complete part
  longest : ∀ other, other <+: bytes → Complete other → other <+: part

theorem longestComplete_completePart (bytes : Bytes) :
    LongestComplete (completePart bytes) bytes where
  front := List.prefix_iff_eq_take.2 (take_length_completePart bytes).symm
  complete := complete_completePart bytes
  longest := by
    rintro other ⟨rest, rfl⟩ hother
    rw [hother.completePart_append]
    exact List.prefix_append _ _

namespace Journal

open FileSystem

variable {fs : FileSystem} {j : Journal}

/-- The file of a journal is cut to its first bytes. -/
theorem Located.exists_cut (h : j.Located fs) (n : Nat) :
    ∃ cut, fs.write j.path ((fs.bytesOf j.handle).take n) = .ok cut ∧ j.Located cut ∧
      cut.bytesOf j.handle = (fs.bytesOf j.handle).take n := by
  -- the device that is always full holds no bytes that could be cut
  have hfull : j.handle = .full → (fs.bytesOf j.handle).take n = [] := by
    intro hfull
    rw [hfull]
    exact List.take_nil
  have hwrite : fs.write j.path ((fs.bytesOf j.handle).take n) =
      .ok (fs.setBytes j.handle ((fs.bytesOf j.handle).take n)) := by
    rw [FileSystem.write, h.openFile_eq]
    cases hhandle : j.handle with
    | file _ => rfl
    | full =>
      rw [← hhandle, hfull hhandle, hhandle]
      rfl
  exact ⟨_, hwrite, h.of_rewrites (rewrites_setBytes _ _ _) rfl rfl,
    bytesOf_setBytes h.inside hfull⟩

/-- **Appends that all succeed** put their records one behind the other, and leave the journal
settled. -/
theorem Settled.appendEach (h : j.Settled fs) {calls : List (List Block)}
    (hok : ∀ result ∈ (j.appendEach fs calls).results, result = .ok ()) :
    let r := j.appendEach fs calls
    r.journal.Settled r.files ∧ r.journal.path = j.path ∧
      r.files.bytesOf r.journal.handle = fs.bytesOf j.handle ++ recordsOf calls.flatten := by
  induction calls using List.reverseRecOn with
  | nil => exact ⟨h, rfl, (List.append_nil _).symm⟩
  | append_singleton calls blocks ih =>
    rw [appendEach_concat, Appends.next] at hok ⊢
    obtain ⟨hbefore, hlast⟩ := List.forall_mem_append.1 hok
    obtain ⟨hsettled, hpath, hbytes⟩ := ih hbefore
    obtain ⟨hpath', hsettled', hbytes'⟩ := hsettled.append (hlast _ (List.mem_singleton_self _))
    refine ⟨hsettled', hpath'.trans hpath, ?_⟩
    rw [hbytes', hbytes, List.append_assoc, ← recordsOf_append, List.flatten_concat]

/-- **A journal has recovered some blocks** from the bytes that were in its file. In the file is what
is complete of them, opening the journal again changes nothing, and it holds the blocks. It takes
more blocks unless an append is to fail, and then they are loaded behind the others. -/
structure Recovered (j : Journal) (fs : FileSystem) (bytes : Bytes) (blocks : List Block) : Prop where
  kept : ∃ left, fs.read j.path = .ok left ∧ LongestComplete left bytes
  again : openAt fs j.path = (.ok j, fs)
  loads : j.load fs = .ok blocks
  takes : ∀ more, (j.append fs more).result = .ok () ↔
    (fs.nextMishap j.handle (recordsOf more).length).1 = none
  appends : ∀ more, (∀ b ∈ more, b.id ≠ "") → (j.append fs more).result = .ok () →
    (j.append fs more).journal.load (j.append fs more).files = .ok (blocks ++ more)

/-- **A journal that lies at its path** and holds records that have been cut off somewhere recovers
the blocks of the whole ones when it is opened. -/
theorem Located.recovered (h : j.Located fs) {blocks : List Block}
    (hnamed : ∀ b ∈ blocks, b.id ≠ "") {n : Nat}
    (hbytes : fs.bytesOf j.handle = (recordsOf blocks).take n) :
    ∃ j' reopened, openAt fs j.path = (.ok j', reopened) ∧ j'.path = j.path ∧
      j'.Recovered reopened ((recordsOf blocks).take n)
        (blocks.take (wholeRecords blocks n)) := by
  obtain ⟨j', reopened, hopen, hsettled, hpath, hhandle, hleft⟩ := h.exists_openAt_eq
  rw [hbytes, ← hhandle] at hleft
  have hread : reopened.read j'.path = .ok (completePart ((recordsOf blocks).take n)) := by
    rw [hsettled.located.read_eq, hleft]
  have hload : j'.load reopened = .ok (blocks.take (wholeRecords blocks n)) := by
    rw [hsettled.load_eq_ok_iff, hleft, completePart_take_recordsOf]
    -- whole records are read as if they had been appended to an empty file
    exact readRecords_append complete_nil rfl fun b hb => hnamed b (List.mem_of_mem_take hb)
  refine ⟨j', reopened, hopen, hpath, ?_⟩
  exact
    { kept := ⟨_, hread, longestComplete_completePart _⟩
      again := hsettled.openAt_eq
      loads := hload
      takes := fun more => by rw [append_ok_iff, hsettled.clean, eq_self, true_and]
      appends := fun _ hmore hok => hsettled.load_append hload hmore hok }

/-- **Recovery of a file that has been cut anywhere.** A journal that held nothing has taken some
appends, so that its file holds their records, and then the file is cut to its first `n` bytes.
Opening the journal succeeds, and it recovers the blocks whose records, with their line feeds, lie
wholly within those bytes. -/
theorem openAt_cut {path : String} {opened : FileSystem} (hsound : fs.Sound)
    (hopen : openAt fs path = (.ok j, opened)) (hfresh : opened.read path = .ok [])
    {calls : List (List Block)} (hnamed : ∀ blocks ∈ calls, ∀ b ∈ blocks, b.id ≠ "")
    (hok : ∀ result ∈ (j.appendEach opened calls).results, result = .ok ()) (n : Nat) :
    let files := (j.appendEach opened calls).files
    let blocks := calls.flatten
    files.read path = .ok (recordsOf blocks) ∧
      ∃ cut, files.write path ((recordsOf blocks).take n) = .ok cut ∧
        cut.read path = .ok ((recordsOf blocks).take n) ∧
        ∃ j' reopened whole, openAt cut path = (.ok j', reopened) ∧ j'.path = path ∧
          (∀ i, i < whole ↔ i < blocks.length ∧ (recordsOf (blocks.take (i + 1))).length ≤ n) ∧
          j'.Recovered reopened ((recordsOf blocks).take n) (blocks.take whole) := by
  intro files blocks
  obtain ⟨rfl, hsettled⟩ := settled_of_openAt hsound hopen
  obtain ⟨hafter, hpath, hbytes⟩ := hsettled.appendEach hok
  generalize (j.appendEach opened calls).journal = last at hafter hpath hbytes
  -- the file held nothing at first, so now it holds the records of the appends
  have hempty : opened.bytesOf j.handle = [] := by
    rw [hsettled.located.read_eq] at hfresh
    exact Except.ok.inj hfresh
  rw [hempty, List.nil_append] at hbytes
  have hread : files.read last.path = .ok (recordsOf blocks) := by
    rw [hafter.located.read_eq, hbytes]
  obtain ⟨cut, hwrite, hcut, hheld⟩ := hafter.located.exists_cut n
  rw [hbytes] at hwrite hheld
  have hcutread : cut.read last.path = .ok ((recordsOf blocks).take n) := by
    rw [hcut.read_eq, hheld]
  have hids : ∀ b ∈ blocks, b.id ≠ "" := by
    intro b hb
    obtain ⟨batch, hbatch, hmem⟩ := List.mem_flatten.1 hb
    exact hnamed batch hbatch b hmem
  obtain ⟨j', reopened, hreopen, hpath', hrecovered⟩ := hcut.recovered hids hheld
  rw [← hpath]
  exact ⟨hread, cut, hwrite, hcutread, j', reopened, wholeRecords blocks n, hreopen, hpath',
    fun _ => lt_wholeRecords_iff, hrecovered⟩

/-- Of two records the second one is cut within a character. It is gone when the journal has been
opened, and what is appended then is read behind the first. -/
theorem openAt_cut_character :
    let a : Block := { id := "a", payload := [1] }
    let b : Block := { id := "é", payload := [2] }
    let c : Block := { id := "c", payload := [3] }
    let opened := FileSystem.fresh.addFile ["work", "blocks"]
    let j : Journal := ⟨"blocks", .file 0, 0, false⟩
    let files := (j.appendEach opened [[a], [b]]).files
    let bytes := a.toRecord ++ b.toRecord.take 8
    let cut := files.setBytes (.file 0) bytes
    let j' : Journal := ⟨"blocks", .file 0, a.toRecord.length, false⟩
    let reopened := files.setBytes (.file 0) a.toRecord
    openAt .fresh "blocks" = (.ok j, opened) ∧ Bytes.text? bytes = none ∧
      files.write "blocks" bytes = .ok cut ∧ openAt cut "blocks" = (.ok j', reopened) ∧
      j'.load reopened = .ok [a] ∧
      (j'.append reopened [c]).journal.load (j'.append reopened [c]).files = .ok [a, c] := by
  intro a b c opened j files bytes cut j' reopened
  have hopen : openAt .fresh "blocks" = (.ok j, opened) := by rfl
  have hfresh : opened.read "blocks" = .ok [] := by decide +kernel
  have hok : ∀ result ∈ (j.appendEach opened [[a], [b]]).results, result = .ok () := by
    decide +kernel
  have hbytes : (recordsOf [[a], [b]].flatten).take (a.toRecord.length + 8) = bytes := by
    decide +kernel
  have hwrite : files.write "blocks" bytes = .ok cut := by decide +kernel
  have hreopen : openAt cut "blocks" = (.ok j', reopened) := by decide +kernel
  obtain ⟨-, cut', hcut, -, j'', reopened', whole, hreopen', -, hwhole, hrecovered⟩ :=
    openAt_cut FileSystem.sound_fresh hopen hfresh (by decide) hok (a.toRecord.length + 8)
  -- the first record is whole, and the second one is not
  have hfirst : 0 < whole := (hwhole 0).2 (by decide +kernel)
  have hsecond : ¬ 1 < whole := fun h => absurd ((hwhole 1).1 h) (by decide +kernel)
  obtain rfl : whole = 1 := by omega
  rw [hbytes] at hcut
  obtain rfl : cut = cut' := Except.ok.inj (hwrite.symm.trans hcut)
  obtain ⟨hj, rfl⟩ := Prod.mk.inj (hreopen.symm.trans hreopen')
  obtain rfl : j' = j'' := Except.ok.inj hj
  exact ⟨hopen, by decide +kernel, hwrite, hreopen, hrecovered.loads,
    hrecovered.appends [c] (by decide) ((hrecovered.takes [c]).2 rfl)⟩

end Journal

end BlockLedger
