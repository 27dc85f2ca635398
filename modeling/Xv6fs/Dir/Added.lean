/-
  What an insertion that succeeds adds.

  In a valid directory the name is mapped then, and the directory is valid still. The blocks it has
  gained were free, and no other bit, slot or file has changed (`insert_added`). The addresses of
  the directory may be in core or not.
-/
import Xv6fs.Dir.Reported
import Xv6fs.Fs.Gains
import Xv6fs.Fs.Grew

namespace Xv6fs

/-- A valid directory of a file system whose blocks are owned once. -/
structure InsertSite (w : World) (A : Nat → Option Addrs) (p : Ptr) : Prop where
  quiet : Quiet w.env
  sound : w.env.info.Sound
  hint : HintOk w.env w.hint
  owned : Owned w.env w.disk A
  at_dir : A (w.inodes p).ino = some (w.addrs p)
  dirSlot : HasSlot w.env (w.inodes p).ino
  valid : ValidDir w.disk (w.addrs p) (w.inodes p).size

/-- The first unused entry of the directory at `p` lies before its end, and no address has to be set
    to reach it. -/
def RoomBelow (w : World) (p : Ptr) : Prop :=
  ∃ k, k < (w.inodes p).size / 16 ∧ (dslot w.disk (w.addrs p) k).inum = 0 ∧
    (∀ j, j < k → (dslot w.disk (w.addrs p) j).inum ≠ 0) ∧
    (w.addrs p).get (viaSlot (k / NENTS)) ≠ 0

/-- From `w` to `w'` the directory at `p` has come to map `nm`, and nothing else has changed. -/
structure Added (w : World) (A : Nat → Option Addrs) (p : Ptr) (nm : EntryName) (inum : UInt16)
    (w' : World) : Prop where
  map : dirMapAt w' p = Function.update (dirMapAt w p) nm (some inum)
  valid : ValidDir w'.disk (w'.addrs p) (w'.inodes p).size
  gains : Gains w.env w.disk (w.addrs p) w'.disk (w'.addrs p)
  owned : Owned w.env w'.disk (Function.update A (w.inodes p).ino (some (w'.addrs p)))
  slots : ∀ m, HasSlot w.env m → (m = (w.inodes p).ino → (w.inodes p).priv ≠ none) →
    slot w.env w'.disk m = slot w.env w.disk m
  own : (w.inodes p).priv = none →
    (slot w.env w.disk (w.inodes p).ino).size.toNat = (w.inodes p).size →
    (slot w.env w'.disk (w.inodes p).ino = slot w.env w.disk (w.inodes p).ino ↔ RoomBelow w p)
  nodes : SameNodes (· = p) w w'

/-! ## Does the context have to be stored? -/

section

variable {env : Env} {d d' : Disk} {hint h' i b size : Nat} {e : Int} {addrs addrs' : Addrs}
  {dirty : Bool}

theorem Mapped.dirty_iff (h : Mapped env d hint addrs i e b addrs' dirty d' h') :
    dirty = true ↔ addrs.get (viaSlot i) = 0 := by
  cases h with
  | found hi h => simp [viaSlot_direct hi, h]
  | direct hi h => simp [viaSlot_direct hi, h]
  | entry hi h => simp [viaSlot_indirect hi, h]
  | error hi h => simp [viaSlot_indirect hi, h]
  | nospc hi h => simp [viaSlot_indirect hi, h]
  | indirect hi h => simp [viaSlot_indirect hi, h]

/-- A search for room changes the context, unless there is room below the end. -/
theorem Inserting.dirty_iff {nde : Dirent} {ctx : InodeCtx} {w w' : World}
    (hw : GrowReady w addrs) (ho : Owned w.env w.disk (alone addrs)) (hle : size ≤ MAXFILE * BSIZE)
    (h : Inserting w ⟨addrs, size, false⟩ nde 0 ctx w') :
    (ctx.dirty = true ↔ ¬ ∃ k, k < size / 16 ∧ (dslot w.disk addrs k).inum = 0 ∧
      (∀ j, j < k → (dslot w.disk addrs j).inum ≠ 0) ∧ addrs.get (viaSlot (k / NENTS)) ≠ 0) ∧
    (ctx.dirty = true → ctx.size = size + 16 ∨ ctx.addrs ≠ addrs) := by
  have hmod : (size + 16) % 2 ^ 32 = size + 16 := by
    simp only [MAXFILE, BSIZE] at hle
    omega
  generalize he : (0 : Int) = e at h
  cases h with
  | big hr hn hall => exact absurd he (by decide)
  | unmapped hm hm' hbefore hop hne => exact absurd he.symm hne
  | unread hm hm' hbefore hop hr hne => exact absurd he.symm hne
  | garbage hn hall =>
    refine ⟨⟨fun _ => ?_, fun _ => rfl⟩, fun _ => .inl hmod⟩
    rintro ⟨k, hk, hfree, -⟩
    exact hall k hk hfree
  | @written k b _ addrs' dirty dirty' size' w₁ _ hk hk' hbefore hop hfree hname hsize hdirty
      hkept hwr =>
    obtain ⟨hsame, -⟩ := hop.effect hw ho alone_self hk
    obtain ⟨hb, hmap, hslot⟩ := hop.slot hw hk
    have hkmax : k < MAXFILE * NENTS := by
      simp only [MAXFILE, NENTS] at hk ⊢
      omega
    have hfirst : (dslot w.disk addrs k).inum = 0 := by
      rw [← hsame.slots hkmax, hslot]
      exact hfree
    dsimp only at hsize hk' hkept ⊢
    by_cases hend : k < size / 16
    · rw [hkept hend, hop.mapped.dirty_iff]
      refine ⟨⟨fun hz => ?_, fun hno => ?_⟩, fun hz => .inr ?_⟩
      · rintro ⟨j, hj, hj0, hused, hne⟩
        -- the first unused entry is this one
        obtain rfl : j = k := by
          rcases lt_trichotomy j k with hlt | heq | hgt
          · exact absurd hj0 (hbefore j hlt)
          · exact heq
          · exact absurd hfirst (hused k hgt)
        exact hne hz
      · by_contra hne
        exact hno ⟨k, hend, hfirst, hbefore, hne⟩
      · rintro rfl
        exact hb (hmap.symm.trans (bmap_unused hz))
    · have hgrow : dirty' = true := by
        by_contra hclean
        rw [if_neg hend, hmod] at hsize
        have := (hdirty (by simpa using hclean)).1
        dsimp only at this
        omega
      refine ⟨⟨fun _ => ?_, fun _ => hgrow⟩, fun _ => .inl ?_⟩
      · rintro ⟨j, hj, hj0, -⟩
        exact hbefore j (by omega) hj0
      · rw [hsize, if_neg hend, hmod]

end

section

variable {w w' : World} {A : Nat → Option Addrs} {p : Ptr} {nm : EntryName} {inum : UInt16}

theorem Owned.single {env : Env} {d : Disk} {n : Nat} {addrs : Addrs} (ho : Owned env d A)
    (hA : A n = some addrs) : Owned env d (alone addrs) := by
  have hown : ∀ {q b}, owns d (alone addrs) q = some b → q.1 = 0 ∧ owns d A (n, q.2) = some b := by
    rintro ⟨m, r⟩ b hq
    by_cases hm : m = 0
    · rw [hm, owns_of alone_self] at hq
      exact ⟨hm, (owns_of hA).trans hq⟩
    · have hnone : alone addrs m = none := Function.update_of_ne hm _ _
      unfold owns at hq
      rw [hnone] at hq
      cases hq
  refine ⟨fun hq => ho.held (hown hq).2, fun {q q' b} hq hq' => ?_⟩
  have hr := congrArg Prod.snd (ho.inj (hown hq).2 (hown hq').2)
  exact Prod.ext ((hown hq).1.trans (hown hq').1.symm) hr

theorem roomBelow_congr (hsize : (w'.inodes p).size = (w.inodes p).size)
    (haddrs : w'.addrs p = w.addrs p) (hle : (w.inodes p).size ≤ MAXFILE * BSIZE)
    (hsame : SameFile w.disk (w.addrs p) w'.disk (w.addrs p)) : RoomBelow w' p ↔ RoomBelow w p := by
  have hslot : ∀ {k}, k < (w.inodes p).size / 16 →
      dslot w'.disk (w.addrs p) k = dslot w.disk (w.addrs p) k := fun hk => hsame.slots (by
    simp only [MAXFILE, NENTS, BSIZE] at hle ⊢
    omega)
  unfold RoomBelow
  rw [hsize, haddrs]
  refine exists_congr fun k => and_congr_right fun hk => ?_
  rw [hslot hk]
  refine and_congr_right fun _ => and_congr_left fun _ => forall_congr' fun j => ?_
  exact imp_congr_right fun hj => by rw [hslot (hj.trans hk)]

theorem insert_added (hrw : w.env.rdonly = false) (hd : InsertSite w A p) (hinum : inum ≠ 0)
    (hnone : dirMapAt w p nm = none)
    (h : Returns (xv6DentryInsert p nm.name inum.toNat) w 0 w') : Added w A p nm inum w' := by
  have hg := hd.sound
  have hle := hd.valid.le
  have hnodes : SameNodes (· = p) w w' := (keeps_dentryInsert (P := (· = p)) rfl _ _).via h
  obtain ⟨l, ctx, s, w₁, u, w₂, -, hiter, hwb, hstore⟩ := insert_opened h
  have hsize : (w.inodes p).size % 2 ^ 32 = (w.inodes p).size := by
    simp only [MAXFILE, BSIZE] at hle
    omega
  rw [hsize] at hiter
  have hready : GrowReady { w with log := l } (w.addrs p) :=
    ⟨hrw, hg, hd.hint, hd.owned.held_indirect hd.at_dir⟩
  have hins := iterate_insert_spec hready hle hiter
  have halone := hd.owned.single hd.at_dir
  have hf : Faultless { w with log := l } w₁ := Returns.faultless hd.quiet hiter
  -- what the search for room has done
  obtain ⟨henv, hinodes, hbefore, hown₀, hclean, -⟩ :=
    hins.placed hready halone hle
  have hins' := hins.inserted hready hd.owned hd.at_dir hd.valid hf
  rw [UInt16.ofNat_toNat] at hins'
  obtain ⟨k, hk, hmax, hfree, hsz, hset⟩ := hins'.entry rfl
  obtain ⟨hvalid, hmap⟩ := hd.valid.put hk hmax hfree hinum hnone hsz hset
  have hmap₀ : MapReady { w with log := l } (w.inodes p).ino A (w.addrs p) :=
    ⟨hg, hd.hint, hd.at_dir, hd.owned⟩
  have hgrew := (iterate_grew hmap₀ (.inl rfl) unfailed_zero hiter).2
  have hgains := hgrew.grown.gains hg hd.owned hd.at_dir
  have hown := hins'.owned
  dsimp only at henv hinodes hbefore hclean hmap hgains hown
  -- what the storing of the context leaves alone
  have hslot : (w.inodes p).priv = none → w₁.addrs p = w.addrs p := by
    intro hpriv
    simp only [World.addrs, hinodes, hpriv, henv, hd.dirSlot.same hg hbefore]
  have hset' := store_settled (by rw [henv]; exact hrw)
    (fun hc hpriv => (hclean hc).trans (hslot (hinodes ▸ hpriv)).symm)
    (fun _ => hown₀.addr_lt hg alone_self) hwb hstore
  have hbehind : ∀ x, w.env.info.bmapstart ≤ x → w'.disk x = w₁.disk x := fun x hx =>
    hset'.disk fun _ hxb => by
      rw [hinodes, henv] at hxb
      have hlt := hd.dirSlot.block_lt hg
      omega
  have hsame : SameFile w₁.disk ctx.addrs w'.disk ctx.addrs :=
    hown₀.sameFile alone_self fun x hx => hbehind x (hg.data_ge hx)
  have hsize' : (w'.inodes p).size =
      if (0 : Int) = 0 ∧ ctx.dirty = true then ctx.size else (w.inodes p).size := by
    rw [hset'.size, hinodes]
    simp
  obtain ⟨hvalid', hmap'⟩ := hsame.validDir hvalid
  refine ⟨?_, ?_, ?_, ?_, fun m hm hpriv => ?_, fun hpriv hcur => ?_, hnodes⟩
  · unfold dirMapAt
    rw [hset'.addrs, hsize', hmap', hmap]
  · rw [hset'.addrs, hsize']
    exact hvalid'
  · rw [hset'.addrs]
    exact hgains.behind hg hbehind
  · rw [hset'.addrs]
    exact Owned.behind hg hown hbehind
  · have hold : slot w.env w₁.disk m = slot w.env w.disk m := hm.same hg hbefore
    rcases hset'.written with hd' | ⟨hnone', di, hd'⟩
    · rw [hd', hold]
    · rw [hinodes] at hnone'
      rw [hd', hinodes, henv, hd.dirSlot.setSlot_ne hg hm fun hmp => hpriv hmp hnone', hold]
  · have hold : slot w.env w₁.disk (w.inodes p).ino = slot w.env w.disk (w.inodes p).ino :=
      hd.dirSlot.same hg hbefore
    obtain ⟨hroom, hgrew⟩ := hins.dirty_iff hready halone hle
    constructor
    · intro hsame
      by_contra hno
      have hdirty := hroom.mpr hno
      obtain ⟨hsz, haddr⟩ := hset'.stored hdirty (hinodes ▸ hpriv)
      rw [hinodes, henv, hsame] at hsz haddr
      rcases hgrew hdirty with hgrown | hmoved
      · have hlt : (w.inodes p).size + 16 < UInt32.size := by
          simp only [MAXFILE, BSIZE, UInt32.size] at hle ⊢
          omega
        rw [hsz, hgrown, UInt32.toNat_ofNat_of_lt' hlt] at hcur
        omega
      · refine hmoved (haddr.symm.trans ?_)
        simp only [World.addrs, hpriv]
    · intro hyes
      rw [hset'.clean (by simpa using mt hroom.mp (not_not_intro hyes)), hold]

end

end Xv6fs
