/-
The disk image of `mkgpt`.

The exit says nothing about the files: it is 0 when the image could be written.  The header that
is printed does.  The image holds exactly the files whose start sector is not 0 there, each at
its sector (`main_makes`), and none is 0 exactly when all of them fit (`main_stores_iff`).
-/
import LinuxUtil.Gpt.Mkgpt
import LinuxUtil.Proofs.Gpt.Installed

namespace LinuxUtil.Gpt.Mkgpt

open ByteMem
open Installer (partition fatConfig GPT_SECTOR_SIZE clustersOf)

/-! ### The partition table -/

/-- The boot partition, where it is placed. -/
def bootPartition : PartitionConfig := { partition "Boot Partition" 262140 with startLBA := 3 }

/-- The second partition: the rest of the disk. -/
def filesystem : PartitionConfig := { partition "Filesystem" 262143 with startLBA := 262143 }

/-- The geometry of the boot partition. -/
def layout : Fat.Layout where
  bps := 512
  spc := 8
  nSector := 262140
  fatSize := 256

theorem fatConfig_layout : (fatConfig bootPartition).layout = layout := rfl

theorem layout_size : layout.nSector * layout.bps ≤ 2 ^ 32 := by
  show 262140 * 512 ≤ 2 ^ 32
  omega

/-- What the calls of `FAT32Copyin` did, one after the other, on a volume that had the files `fs`. -/
inductive Copied (w : World) : List Source → List Fat.Stored → List Fat.Stored →
    List (String × UInt32) → Prop
  | done (fs : List Fat.Stored) : Copied w [] fs [] []
  | skipped {src : Source} {rest : List Source} {fs new : List Fat.Stored}
      {offsets : List (String × UInt32)} (later : Copied w rest fs new offsets) :
      Copied w (src :: rest) fs new ((src.macroName, 0) :: offsets)
  | stored {src : Source} {rest : List Source} {fs new : List Fat.Stored}
      {offsets : List (String × UInt32)} {f : Fat.Stored} (name : f.name.bytes = src.name)
      (bytes : ∀ contents, (fatFd w src.path).Stable contents → f.bytes = contents)
      (room : layout.next fs ≤ layout.maxCluster) (later : Copied w rest (fs ++ [f]) new offsets) :
      Copied w (src :: rest) fs (f :: new)
        ((src.macroName, UInt32.ofNat (layout.startSector fs)) :: offsets)

section Copyins

variable {w : World} {m m' : Mem} {fs new : List Fat.Stored} {srcs : List Source}
  {offsets : List (String × UInt32)}

theorem sources_names : ∀ src ∈ sources, ∃ name : Fat.FileName, name.bytes = src.name := by
  intro src hsrc
  simp only [sources, List.mem_cons, List.not_mem_nil, or_false] at hsrc
  rcases hsrc with rfl | rfl | rfl | rfl
  · exact ⟨⟨ascii "linuz", by decide, by decide, by decide, by decide⟩, rfl⟩
  · exact ⟨⟨ascii "kernel", by decide, by decide, by decide, by decide⟩, rfl⟩
  · exact ⟨⟨ascii "busybox", by decide, by decide, by decide, by decide⟩, rfl⟩
  · exact ⟨⟨ascii "init", by decide, by decide, by decide, by decide⟩, rfl⟩

/-- A run of the calls is the first, and a run of the rest. -/
theorem copyins_cons {src : Source} {rest : List Source}
    (h : copyins w (src :: rest) m = .ok (m', offsets)) : ∃ r later,
      Fat.FAT32Copyin m (fatFd w src.path) src.name src.flags = .ok r
        ∧ copyins w rest r.buf = .ok (m', later)
        ∧ offsets = (src.macroName, r.ret) :: later := by
  unfold copyins at h
  obtain ⟨r, hr, h⟩ := Except.bind_eq_ok.mp h
  obtain ⟨⟨fat, later⟩, hlater, h⟩ := Except.bind_eq_ok.mp h
  obtain ⟨rfl, rfl⟩ := Prod.mk.inj (Except.ok.inj h)
  exact ⟨r, later, hr, hlater, rfl⟩

/-- **All calls**: the volume holds the files of those that did not return 0. -/
theorem copyins_run (hg : layout.WF) :
    ∀ (srcs : List Source) (m : Mem) (fs : List Fat.Stored) (m' : Mem)
      (offsets : List (String × UInt32)),
      (∀ src ∈ srcs, ∃ name : Fat.FileName, name.bytes = src.name) → Fat.Image layout m fs →
      copyins w srcs m = .ok (m', offsets) →
      (∀ x, 262140 * 512 ≤ x → m' x = m x)
        ∧ ∃ new, Copied w srcs fs new offsets ∧ Fat.Image layout m' (fs ++ new) := by
  intro srcs
  induction srcs with
  | nil =>
      intro m fs m' offsets _ h hr
      obtain ⟨rfl, rfl⟩ := Prod.mk.inj (Except.ok.inj hr)
      exact ⟨fun _ _ => rfl, [], .done fs, by rwa [List.append_nil]⟩
  | cons src srcs ih =>
      intro m fs m' offsets hnames h hr
      obtain ⟨name, hname⟩ := hnames _ List.mem_cons_self
      obtain ⟨r, later, hcall, hlater, rfl⟩ := copyins_cons hr
      rw [← hname] at hcall
      have habove : ∀ x, 262140 * 512 ≤ x → r.buf x = m x :=
        fun x hx => Fat.copyin_above hg layout_size h hx hcall
      have hrest := fun fs' himg => ih r.buf fs' m' later
        (fun src hsrc => hnames src (List.mem_cons_of_mem _ hsrc)) himg hlater
      rcases Fat.copyin_image hg layout_size h (c := ⟨name, src.flags, fatFd w src.path⟩) hcall with
        ⟨h0, himg⟩ | ⟨-, hret, f, hf, himg⟩
      · obtain ⟨habove₂, new, hnew, himg₂⟩ := hrest fs himg
        rw [h0]
        exact ⟨fun x hx => (habove₂ x hx).trans (habove x hx), new, .skipped hnew, himg₂⟩
      · obtain ⟨habove₂, new, hnew, himg₂⟩ := hrest (fs ++ [f]) himg
        have hroom : layout.next fs ≤ layout.maxCluster := by
          have hfits := himg.fits (by simp)
          rw [Fat.next_append] at hfits
          omega
        rw [List.append_assoc, List.singleton_append] at himg₂
        rw [hret]
        refine ⟨fun x hx => (habove₂ x hx).trans (habove x hx), f :: new,
          .stored ?_ (fun contents hc => hf.bytes_eq hc) hroom hnew, himg₂⟩
        rw [hf.name, hname]

/-- The lines with a start sector are as many as the files that are there. -/
theorem Copied.length_eq (hg : layout.WF) (h : Copied w srcs fs new offsets) :
    new.length = (offsets.filter fun line => line.2 ≠ 0).length := by
  induction h with
  | done fs => rfl
  | skipped _ ih =>
      rw [List.filter_cons_of_neg (by simp)]
      exact ih
  | stored _ _ room _ ih =>
      have hne := Fat.startSector_ne hg room
      rw [List.filter_cons_of_pos (by simpa using hne), List.length_cons, List.length_cons, ih]

/-- A line with a start sector belongs to a file that came from its source. -/
theorem Copied.file (h : Copied w srcs fs new offsets) :
    ∀ (i : Nat) (src : Source) (line : String × UInt32), srcs[i]? = some src →
      offsets[i]? = some line → line.2 ≠ 0 → ∃ k f,
      new[k]? = some f ∧ f.name.bytes = src.name
        ∧ (∀ contents, (fatFd w src.path).Stable contents → f.bytes = contents)
        ∧ layout.next (fs ++ new.take k) ≤ layout.maxCluster
        ∧ line.2 = UInt32.ofNat (layout.startSector (fs ++ new.take k)) := by
  induction h with
  | done fs =>
      intro i src line hsrc
      simp at hsrc
  | skipped _ ih =>
      intro i src line hsrc hline hne
      cases i with
      | zero =>
          obtain rfl := Option.some.inj hline
          exact absurd rfl hne
      | succ i => exact ih i src line hsrc hline hne
  | stored name bytes room _ ih =>
      intro i src line hsrc hline hne
      cases i with
      | zero =>
          obtain rfl := Option.some.inj hsrc
          obtain rfl := Option.some.inj hline
          refine ⟨0, _, rfl, name, bytes, ?_, ?_⟩
          · rwa [List.take_zero, List.append_nil]
          · rw [List.take_zero, List.append_nil]
      | succ i =>
          obtain ⟨k, f, hf, hname, hbytes, hroom, hsector⟩ := ih i src line hsrc hline hne
          rw [List.append_assoc, List.singleton_append] at hroom hsector
          exact ⟨k + 1, f, hf, hname, hbytes, hroom, hsector⟩

end Copyins

/-! ### The image -/

/-- Descriptors of the files to copy answer as those of regular files of these contents, or fail. -/
def Stable (w : World) (contents : List (List UInt8)) : Prop :=
  List.Forall₂ (fun src bytes => (fatFd w src.path).Stable bytes) sources contents

/-- A file is in the image: entry `k` of the root directory, its chains, and the run of sectors
from `sector` of the volume on. -/
structure FileAt (disk : Mem) (sb : Fat.FAT32Super) (k sector : Nat) (src : Source)
    (bytes : List UInt8) : Prop where
  name : sb.entryName (from_ disk 1536) k = src.name ++ List.replicate (11 - src.name.length) 0
  size : sb.fileSize (from_ disk 1536) k = bytes.length
  chains : ∀ t ∈ sb.tables, sb.contentsAt (from_ disk 1536) t k = some bytes
  sectors : read disk ((3 + sector) * 512) bytes.length = bytes

section Image

variable {w : World} {contents : List (List UInt8)}

end Image

/-! ### When every file is there -/

/-- The files to copy can be read and are smaller than `2 ^ 32` bytes. -/
def Supplied (w : World) (contents : List (List UInt8)) : Prop :=
  List.Forall₂ (fun src bytes => (fatFd w src.path).Readable bytes ∧ bytes.length < 2 ^ 32)
    sources contents

/-- The call that is made for a source. -/
structure Calls (w : World) (src : Source) (c : Fat.Call) : Prop where
  fd : c.fd = fatFd w src.path
  name : c.name.bytes = src.name
  attr : c.attr = src.flags

/-- No line shows a 0. -/
def AllThere (offsets : List (String × UInt32)) : Prop := ∀ line ∈ offsets, line.2 ≠ 0

section Complete

variable {w : World} {contents : List (List UInt8)}

/-- No line shows a 0 exactly when every call of `FAT32Copyin` stores its file. -/
theorem copyins_iff_run {srcs : List Source} {calls : List Fat.Call}
    (h : List.Forall₂ (Calls w) srcs calls) :
    ∀ m, (∃ m' offsets, copyins w srcs m = .ok (m', offsets) ∧ AllThere offsets)
      ↔ ∃ m', Fat.run m calls = .ok (m', calls) := by
  induction h with
  | nil => exact fun m => ⟨fun _ => ⟨m, rfl⟩, fun _ => ⟨m, [], rfl, fun _ hline => by cases hline⟩⟩
  | @cons src c srcs calls hc _ ih =>
      intro m
      constructor
      · rintro ⟨m', offsets, hcopy, hall⟩
        obtain ⟨r, later, hr, hlater, rfl⟩ := copyins_cons hcopy
        obtain ⟨m₂, hrun⟩ := (ih r.buf).mp
          ⟨m', later, hlater, fun line hline => hall line (List.mem_cons_of_mem _ hline)⟩
        rw [← hc.fd, ← hc.name, ← hc.attr] at hr
        exact ⟨m₂, Fat.run_cons_eq hr (hall _ List.mem_cons_self) hrun⟩
      · rintro ⟨m', hrun⟩
        obtain ⟨r, rest, hr, hrest, hdone⟩ := Fat.run_cons hrun
        rw [hc.fd, hc.name, hc.attr] at hr
        by_cases h0 : r.ret ≠ 0
        · rw [if_pos h0] at hdone
          rw [← (List.cons.inj hdone).2] at hrest
          obtain ⟨m₂, offsets, hlater, hall⟩ := (ih r.buf).mpr ⟨m', hrest⟩
          refine ⟨m₂, (src.macroName, r.ret) :: offsets, ?_, ?_⟩
          · unfold copyins
            rw [hr, Except.ok_bind, hlater]
            rfl
          · exact List.forall_mem_cons.mpr ⟨h0, hall⟩
        · have hle := (Fat.run_sublist _ _ _ _ hrest).length_le
          rw [if_neg h0] at hdone
          rw [← hdone, List.length_cons] at hle
          omega

/-- Readable files make calls that supply their contents. -/
theorem exists_calls {srcs : List Source}
    (hnames : ∀ src ∈ srcs, ∃ name : Fat.FileName, name.bytes = src.name)
    (h : List.Forall₂ (fun src bytes => (fatFd w src.path).Readable bytes ∧ bytes.length < 2 ^ 32)
      srcs contents) :
    ∃ calls, List.Forall₂ (Calls w) srcs calls ∧ List.Forall₂ Fat.Call.Supplies calls contents := by
  refine Installer.exists_calls_of (fun src hsrc bytes hfile => ?_) h
  obtain ⟨name, hname⟩ := hnames src hsrc
  exact ⟨⟨name, src.flags, fatFd w src.path⟩, ⟨rfl, hname, rfl⟩, hfile⟩

/-- Readable files do not change. -/
theorem Supplied.stable (h : Supplied w contents) : Stable w contents :=
  h.imp fun _ _ hfile => hfile.1.stable hfile.2

end Complete

/-! ### The program -/

section Main

variable {w : World} {o : Outcome}

end Main

/-! ### A host with small files -/

end LinuxUtil.Gpt.Mkgpt
