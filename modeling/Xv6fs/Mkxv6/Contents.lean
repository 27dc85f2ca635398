/-
  Files that are read back by their inodes.

  The bytes of an argument that is a file are what `xv6_file_read` gives of its inode on the mounted
  image, however they came from `read`, when the image has been made on a little-endian host
  (`contents_iff`). An image that has been made on a big-endian host is none that can be mounted.
-/
import Xv6fs.Mkxv6.Counter
import Xv6fs.Mkxv6.ReadBack

namespace Xv6fs.Mkxv6

/-- The size in slot `n` is the number of the bytes, and on a host where nothing fails the image is
    mounted, the inode is loaded and each read gives the bytes that it asks for. -/
structure ReadsBack (d : Disk) (n : Nat) (bytes : List UInt8) : Prop where
  size : (slot imageEnv d n).size.toNat = bytes.length
  read : ∀ env, Quiet env → (∀ k, env.mem k = true) → ∃ w q w',
    xv6FillSuper (World.unmounted env d) = .ok ((0, some 0), w) ∧
    Returns (xv6Iget n) w (.ok q) w' ∧
    ∀ mem len pos, (∀ j, j < len → mem.writable j = true) → pos ≤ bytes.length →
      ∃ k mem' l, k = min len (bytes.length - pos) ∧
        Returns (xv6FileRead q mem len pos) w' ((k : Int), pos + k, mem') { w' with log := l } ∧
        ∀ j, j < k → mem'.byte j = bytes.getD (pos + j) 0

section

variable {host : ByteOrder} {sys : Nat → Bool} {args : List Input} {d : Disk}

theorem Imaged.readsBack {f : Input} {i : Nat} (hcount : args.length + 2 ≤ NINODES)
    (h : image .little sys args = some d) (hf : args[i]? = some f) (hreg : f.isdir = false) :
    ReadsBack d (i + 2) f.contents := by
  have hcount' : args.length + 1 < 208 := lt_of_lt_of_le hcount (by decide)
  obtain ⟨hi, -⟩ := List.getElem?_eq_some_iff.mp hf
  have himaged := (image_imaged hcount' h).2
  constructor
  · obtain ⟨-, -, hsize, -⟩ := himaged.file (imageFiles_get hf)
    rw [show f.file (i + 2) = ⟨T_FILE, f.contents⟩ from if_neg (by rw [hreg]; decide)] at hsize
    exact hsize.trans (if_neg (Nat.succ_ne_zero i))
  · intro env hq hmem
    obtain ⟨w, hm⟩ := himaged.mounts hcount' hq hmem
    have hw := justMounted hcount' h hq hmem hm
    obtain ⟨l, hget⟩ := hw.iget_arg hf (by omega) w.log
    refine ⟨w, w.next, _, hm, hget, fun mem len pos hwritable hpos => ?_⟩
    exact hw.read_arg hf hreg rfl rfl (Function.update_self _ _ _) hwritable hpos

/-- The files of at most NINODES - 2 arguments are read back exactly when the image was made on a
    little-endian host, or when there are none. -/
theorem contents_iff (hcount : args.length + 2 ≤ NINODES) (h : image host sys args = some d) :
    (∀ i f, args[i]? = some f → f.isdir = false → ReadsBack d (i + 2) f.contents) ↔
      host = .little ∨ ∀ f ∈ args, f.isdir = true := by
  constructor
  · intro hall
    cases host with
    | little => exact .inl rfl
    | big =>
      refine .inr fun f hf => ?_
      obtain ⟨i, hi⟩ := List.mem_iff_getElem?.mp hf
      cases hreg : f.isdir with
      | true => rfl
      | false =>
        obtain ⟨w, q, w', hm, -⟩ := (hall i f hi hreg).read (Env.calm .little) (fun _ => rfl)
          fun _ => rfl
        exact absurd (mounted_magic hm) (big_endian_magic h)
  · rintro (rfl | hdirs) i f hf hreg
    · exact Imaged.readsBack hcount h hf hreg
    · rw [hdirs f (List.mem_of_getElem? hf)] at hreg
      cases hreg

theorem contents_libAndHello : ∃ d, image .little (fun _ => true) libAndHello = some d ∧
    ReadsBack d 3 [0x68, 0x69, 0x0a] := by
  obtain ⟨d, hd⟩ := libAndHello_made
  exact ⟨d, hd, (contents_iff (by decide) hd).mpr (.inl rfl) 1 _ rfl rfl⟩

/-- On a big-endian host the program makes an image of the same arguments, but the file is not
    there. -/
theorem contents_big_endian : ∃ d, image .big (fun _ => true) libAndHello = some d ∧
    ¬ ReadsBack d 3 [0x68, 0x69, 0x0a] := by
  have hrun : ((filling libAndHello).run (zeroed .big)).isOk = true := by decide +kernel
  obtain ⟨d, hd⟩ := made_of_zeroed hrun
  refine ⟨d, hd, fun hreads => ?_⟩
  obtain ⟨w, q, w', hm, -⟩ := hreads.read (Env.calm .little) (fun _ => rfl) fun _ => rfl
  exact absurd (mounted_magic hm) (big_endian_magic hd)

end

end Xv6fs.Mkxv6
