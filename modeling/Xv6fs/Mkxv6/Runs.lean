/-
  Runs that begin with an image of the program.

  Block ownership is exclusive in every state that a run reaches (`image_runs`).
-/
import Xv6fs.Mkxv6.ReadBack

namespace Xv6fs.Mkxv6

section

variable {d : Disk} {env : Env} {args : List Input} {sys : Nat → Bool} {w : World} {e : Int}
  {p : Ptr} {cs : List VolumeCall} {v : Volume}

/-- Block ownership is exclusive in every state of a run that begins with an image of the
    program. -/
theorem image_runs (hcount : args.length + 1 < 208) (h : image .little sys args = some d)
    (hq : Quiet env) (hhost : env.host = .little)
    (hm : xv6FillSuper (World.unmounted env d) = .ok ((e, some p), w))
    (hrun : Steps VolumeStep ⟨w, []⟩ cs v) : Owned v.world.env v.world.disk v.addrsOf :=
  (hrun.invariant (fun _ _ _ hi hstep => hi.step hstep)
    ((image_imaged hcount h).2.inv hq hhost hm)).owned

/-- The file has been looked up. -/
theorem image_runs_hello : ∃ v : Volume, v.world.tree = [1, 0] ∧
    Owned v.world.env v.world.disk v.addrsOf := by
  obtain ⟨d, w, hd, hw⟩ := libAndHello_mounted
  have h := justMounted (by decide) hd (fun _ => rfl) (fun _ => rfl) hw
  obtain ⟨w', hlookup, htree, -⟩ := h.lookup_arg libAndHello_wellNamed (i := 1) rfl (by decide)
  have hlive : (Volume.mk w []).Live 0 := ⟨by rw [h.tree]; exact List.mem_singleton.mpr rfl,
    List.not_mem_nil⟩
  have hrun : Steps VolumeStep ⟨w, []⟩ [.lookup 0 [0x68, 0x69]] ⟨w', []⟩ :=
    .cons (.lookup hlive hlookup fun _ _ => List.not_mem_nil) (.nil _)
  refine ⟨⟨w', []⟩, ?_, image_runs (by decide) hd (fun _ => rfl) rfl hw hrun⟩
  rw [htree, h.tree, h.next]

end

end Xv6fs.Mkxv6
