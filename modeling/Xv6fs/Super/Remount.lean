/-
  xv6_reconfigure: what a remount leaves on the device.

  `sync_filesystem` on a writable mount writes every dirty inode to its slot
  (`syncFilesystem_writes`). A remount to read-only sets the flag first, so that nothing is
  written: afterwards a slot holds its inode exactly when it held it before
  (`remount_synced_iff`).
-/
import Xv6fs.Inode.Slot
import Xv6fs.File.Overlay
import Xv6fs.Model.Super

namespace Xv6fs

/-- The slot of the inode at `p` has its size, its link count and its addresses. -/
structure SlotHolds (w : World) (p : Ptr) : Prop where
  size : (slot w.env w.disk (w.inodes p).ino).size.toNat = (w.inodes p).size
  nlink : (slot w.env w.disk (w.inodes p).ino).nlink.toNat = (w.inodes p).nlink
  addrs : (slot w.env w.disk (w.inodes p).ino).addr = w.addrs p

/-- The slots of the inodes of a list hold them. -/
def Synced (w : World) (ps : List Ptr) : Prop := ∀ p, p ∈ ps → SlotHolds w p

section

variable {w w' : World} {ps : List Ptr} {e : Int}

/-! ## A sync of a writable file system -/

/-- The inodes of a list have slots of their own, whose fields they fit. -/
structure Slotted (w : World) (ps : List Ptr) : Prop where
  nodup : (ps.map fun p => (w.inodes p).ino).Nodup
  pos : ∀ p, p ∈ ps → (w.inodes p).ino ≠ 0
  inTable : ∀ p, p ∈ ps → InTable w.env (w.inodes p).ino
  fits : ∀ p, p ∈ ps → (w.inodes p).Fits

/-- The in-core inodes are as before but for their dirty flags. -/
def SameInodes (w w' : World) : Prop := ∀ q, ∃ b, w'.inodes q = { w.inodes q with dirty := b }

theorem SameInodes.trans {w₁ : World} (h : SameInodes w w₁) (h' : SameInodes w₁ w') :
    SameInodes w w' := by
  intro q
  obtain ⟨b, hb⟩ := h q
  obtain ⟨b', hb'⟩ := h' q
  exact ⟨b', by rw [hb', hb]⟩

theorem SameInodes.ino (h : SameInodes w w') (q : Ptr) : (w'.inodes q).ino = (w.inodes q).ino := by
  obtain ⟨b, hb⟩ := h q
  rw [hb]

theorem Slotted.same (h : Slotted w ps) (hs : SameInodes w w') (henv : w'.env = w.env) :
    Slotted w' ps where
  nodup := by
    rw [List.map_congr_left fun p _ => hs.ino p]
    exact h.nodup
  pos p hp := by
    rw [hs.ino]
    exact h.pos p hp
  inTable p hp := by
    rw [hs.ino, henv]
    exact h.inTable p hp
  fits p hp := by
    obtain ⟨b, hb⟩ := hs p
    have hf := h.fits p hp
    rw [hb]
    exact ⟨hf.size, hf.nlink, hf.addrs⟩

theorem SlotHolds.same {p : Ptr} (h : SlotHolds w p) (hs : SameInodes w w') (henv : w'.env = w.env)
    (hslot : slot w.env w'.disk (w.inodes p).ino = slot w.env w.disk (w.inodes p).ino) :
    SlotHolds w' p := by
  obtain ⟨b, hb⟩ := hs p
  obtain ⟨h1, h2, h3⟩ := h
  have haddrs : w'.addrs p = w.addrs p := by
    unfold World.addrs
    rw [hb, henv]
    dsimp only
    rw [hslot]
  rw [← hslot] at h1 h2 h3
  refine ⟨?_, ?_, ?_⟩
  · rw [hb, henv]
    exact h1
  · rw [hb, henv]
    exact h2
  · rw [hb, henv, haddrs]
    exact h3

/-- A write-back that reaches the device makes the slot hold the inode. -/
theorem slotHolds_sync {p : Ptr} {l : List Event} (hf : (w.inodes p).Fits) :
    SlotHolds { w with disk := syncDisk w.env w.disk (w.inodes p), log := l } p := by
  refine ⟨?_, ?_, ?_⟩
  · show (slot w.env (syncDisk w.env w.disk (w.inodes p)) (w.inodes p).ino).size.toNat = _
    rw [slot_syncDisk]
    exact hf.size_toDinode _
  · show (slot w.env (syncDisk w.env w.disk (w.inodes p)) (w.inodes p).ino).nlink.toNat = _
    rw [slot_syncDisk]
    exact hf.nlink_toDinode _
  · unfold World.addrs
    show (slot w.env (syncDisk w.env w.disk (w.inodes p)) (w.inodes p).ino).addr = _
    rw [slot_syncDisk, hf.addr_toDinode]
    cases hpriv : (w.inodes p).priv with
    | none => rfl
    | some addrs => rfl

/-- One inode after the other is written. The slots of other numbers stay as they are, so an inode
    that has been written stays written. -/
theorem syncInodes_returns (hg : w.env.info.Sound) (ht : w.env.info.TableOk) :
    ∀ {ps : List Ptr} {w₀ : World}, w₀.env = w.env → Quiet w.env → w.env.rdonly = false →
      Slotted w₀ ps →
      ∃ w', Returns (syncFilesystem.inodes ps) w₀ () w' ∧ w'.env = w.env ∧ SameInodes w₀ w' ∧
        (∀ m, InTable w.env m → m ∉ ps.map (fun p => (w₀.inodes p).ino) →
          slot w.env w'.disk m = slot w.env w₀.disk m) ∧
        ∀ p, p ∈ ps → (w₀.inodes p).dirty = true → SlotHolds w' p
  | [], w₀, henv, _, _, _ => by
    refine ⟨w₀, returns_iff.mpr rfl, henv, fun q => ⟨_, rfl⟩, fun _ _ _ => rfl, fun p hp => ?_⟩
    exact absurd hp List.not_mem_nil
  | p :: ps, w₀, henv, hq, hrw, hs => by
    have hs' : ∀ {w₁ : World}, SameInodes w₀ w₁ → w₁.env = w₀.env → Slotted w₁ ps := by
      intro w₁ hsame henv₁
      have h := hs.same hsame henv₁
      exact ⟨(List.nodup_cons.mp h.nodup).2, fun q hq => h.pos q (List.mem_cons_of_mem _ hq),
        fun q hq => h.inTable q (List.mem_cons_of_mem _ hq),
        fun q hq => h.fits q (List.mem_cons_of_mem _ hq)⟩
    have hfresh : (w₀.inodes p).ino ∉ ps.map fun q => (w₀.inodes q).ino :=
      (List.nodup_cons.mp hs.nodup).1
    simp only [syncFilesystem.inodes, runs_bind_getInode]
    by_cases hdirty : (w₀.inodes p).dirty = true
    · rw [if_pos hdirty]
      simp only [runs_bind_modifyInode]
      obtain ⟨w₁, hw₁⟩ : ∃ w₁, w₀.setInode p { w₀.inodes p with dirty := false } = w₁ := ⟨_, rfl⟩
      have henv₁ : w₁.env = w₀.env := by rw [← hw₁]; rfl
      have hdisk₁ : w₁.disk = w₀.disk := by rw [← hw₁]; rfl
      have hsame₁ : SameInodes w₀ w₁ := by
        intro q
        by_cases hqp : q = p
        · subst hqp
          exact ⟨false, by rw [← hw₁]; exact Function.update_self _ _ _⟩
        · exact ⟨(w₀.inodes q).dirty, by rw [← hw₁]; exact Function.update_of_ne hqp _ _⟩
      have hfirst := hs.same hsame₁ henv₁
      have hp := List.mem_cons_self (a := p) (l := ps)
      obtain ⟨l, hsync⟩ := xv6SyncInode_returns (w := w₁) (p := p) (by rw [henv₁, henv]; exact hq)
        (by rw [henv₁, henv]; exact hrw) (hfirst.pos p hp)
      have hwritten := slotHolds_sync (w := w₁) (l := l) (hfirst.fits p hp)
      obtain ⟨w₂, hw₂⟩ : ∃ w₂ : World,
        { w₁ with disk := syncDisk w₁.env w₁.disk (w₁.inodes p), log := l } = w₂ := ⟨_, rfl⟩
      rw [hw₂] at hsync hwritten
      have hinodes₂ : w₂.inodes = w₁.inodes := by rw [← hw₂]
      have henv₂ : w₂.env = w₀.env := by rw [← hw₂]; exact henv₁
      have hsame₂ : SameInodes w₀ w₂ := by
        intro q
        rw [hinodes₂]
        exact hsame₁ q
      have hmap : (ps.map fun q => (w₂.inodes q).ino) = ps.map fun q => (w₀.inodes q).ino :=
        List.map_congr_left fun q _ => hsame₂.ino q
      obtain ⟨w', hret, henv', hsame', hslots, hholds⟩ :=
        syncInodes_returns hg ht (henv₂.trans henv) hq hrw (hs' hsame₂ henv₂)
      rw [hmap] at hslots
      have hin : InTable w.env (w₀.inodes p).ino := by
        rw [← henv]
        exact hs.inTable p hp
      refine ⟨w', ?_, henv', hsame₂.trans hsame', fun m hm hnot => ?_,
        fun q hq hd => ?_⟩
      · show Returns _ (w₀.setInode p _) () w'
        rw [hw₁]
        exact (returns_bind hsync).mpr hret
      · rw [List.map_cons, List.mem_cons, not_or] at hnot
        rw [hslots m hm hnot.2, ← hw₂]
        show slot w.env (syncDisk w₁.env w₁.disk (w₁.inodes p)) m = _
        rw [syncDisk, hsame₁.ino, henv₁, henv, hdisk₁]
        exact slot_setSlot_ne hg ht hin hm hnot.1
      · rcases List.mem_cons.mp hq with rfl | htail
        · refine hwritten.same hsame' (henv'.trans (henv₂.trans henv).symm) ?_
          rw [hsame₂.ino, henv₂, henv]
          exact hslots _ hin hfresh
        · refine hholds q htail ?_
          have hne : q ≠ p := by
            rintro rfl
            exact hfresh (List.mem_map_of_mem htail)
          rw [hinodes₂, ← hw₁]
          exact (congrArg Inode.dirty (Function.update_of_ne hne _ _)).trans hd
    · rw [if_neg hdirty]
      obtain ⟨w', hret, henv', hsame, hslots, hholds⟩ :=
        syncInodes_returns hg ht henv hq hrw (hs' (fun q => ⟨_, rfl⟩) rfl)
      refine ⟨w', hret, henv', hsame, fun m hm hnot => hslots m hm fun hc => hnot ?_, ?_⟩
      · exact List.mem_cons_of_mem _ hc
      · intro q hq hd
        rcases List.mem_cons.mp hq with rfl | htail
        · exact absurd hd hdirty
        · exact hholds q htail hd

/-- A sync of a writable file system writes every dirty inode. -/
theorem syncFilesystem_writes (hq : Quiet w.env) (hrw : w.env.rdonly = false)
    (hg : w.env.info.Sound) (ht : w.env.info.TableOk) (hs : Slotted w ps) :
    ∃ w', Returns (syncFilesystem ps) w () w' ∧
      ∀ p, p ∈ ps → (w.inodes p).dirty = true → SlotHolds w' p := by
  obtain ⟨w', hret, -, -, -, hholds⟩ := syncInodes_returns hg ht rfl hq hrw hs
  refine ⟨w', ?_, hholds⟩
  simp only [syncFilesystem, runs_bind_getEnv, hrw, Bool.false_eq_true, if_false]
  exact hret

/-! ## A remount to read-only -/

/-- A remount to read-only returns 0 and changes the flag only. -/
theorem xv6Reconfigure_readonly (ps : List Ptr) (w : World) :
    xv6Reconfigure true ps w = .ok (0, w.setReadonly true) := by
  have hsync : (syncFilesystem ps).run (w.setReadonly true) = .ok ((), w.setReadonly true) := by
    refine returns_iff.mp ?_
    simp only [syncFilesystem, runs_bind_getEnv]
    exact returns_iff.mpr rfl
  unfold xv6Reconfigure
  rw [hsync]
  rfl

theorem slotHolds_setReadonly {p : Ptr} (readonly : Bool) :
    SlotHolds (w.setReadonly readonly) p ↔ SlotHolds w p :=
  ⟨fun h => ⟨h.size, h.nlink, h.addrs⟩, fun h => ⟨h.size, h.nlink, h.addrs⟩⟩

/-- After a remount to read-only the slots hold the in-core inodes exactly when they did before. -/
theorem remount_synced_iff (h : xv6Reconfigure true ps w = .ok (0, w')) :
    Synced w' ps ↔ Synced w ps := by
  rw [xv6Reconfigure_readonly] at h
  cases h
  exact forall₂_congr fun p _ => slotHolds_setReadonly true

end

/-- The file of the bytes 1 to 5, inode 2, with its slot. -/
def fiveBytesSynced : World :=
  { fiveBytesUsed with
    disk := setSlot fiveBytes.env fiveBytesUsed.disk 2
      ⟨T_FILE, 0, 0, 1, 5, fun i => if i = 0 then 20 else 0⟩ }

theorem fiveBytesSynced_synced : Synced fiveBytesSynced [0] := by
  intro p hp
  obtain rfl := List.mem_singleton.mp hp
  have hslot : slot fiveBytesSynced.env fiveBytesSynced.disk (fiveBytesSynced.inodes 0).ino =
      ⟨T_FILE, 0, 0, 1, 5, fun i => if i = 0 then 20 else 0⟩ := slot_setSlot_self
  refine ⟨by rw [hslot]; rfl, by rw [hslot]; rfl, ?_⟩
  rw [hslot]
  refine funext fun i => ?_
  show (if i = 0 then (20 : UInt32) else 0).toNat = if i = 0 then 20 else 0
  split <;> rfl

/-- The same file after a byte has been written to its second block. -/
def twoBlocks : World := fiveBytesSynced.after (xv6FileWrite 0 false (fun _ => some 9) 1 1024)

/-- A file that is written back gets a second block and is marked dirty, and the file system is
    mounted again read-only: its slot still has the old size. -/
theorem remount_loses_size :
    Synced fiveBytesSynced [0] ∧
    Returns (xv6FileWrite 0 false (fun _ => some 9) 1 1024) fiveBytesSynced (1, 1025) twoBlocks ∧
    (twoBlocks.inodes 0).dirty = true ∧
    ∃ w', xv6Reconfigure true [0] twoBlocks = .ok (0, w') ∧ ¬ Synced w' [0] := by
  refine ⟨fiveBytesSynced_synced, returns_after (by decide +kernel), by decide +kernel, _,
    xv6Reconfigure_readonly _ _, fun h => ?_⟩
  have hsize := (h 0 List.mem_cons_self).size
  revert hsize
  decide +kernel

theorem fiveBytes_remount : ∃ w', xv6Reconfigure true [0] fiveBytesSynced = .ok (0, w') ∧
    Synced w' [0] :=
  ⟨_, xv6Reconfigure_readonly _ _,
    (remount_synced_iff (xv6Reconfigure_readonly _ _)).mpr fiveBytesSynced_synced⟩

end Xv6fs
