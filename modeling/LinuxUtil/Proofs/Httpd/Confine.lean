/-
The names that the server opens.

`renderFile` leaves out the first character of the path a client has sent and opens what
is behind it, whatever that is.  Such a name is walked through from the working
directory, component by component.  It stays inside exactly if it does not begin with a
slash and never has gone up more often than down.
-/
import LinuxUtil.Httpd.Daemon
import LinuxUtil.Httpd.Util
import LinuxUtil.Lib.Walk

namespace LinuxUtil.Httpd

/-! ### The name -/

/-- The C string that a handler is given for the path of a request. -/
def pathString (path : List UInt8) : List UInt8 := cstring (path ++ [0])

theorem pathString_eq (path : List UInt8) : pathString path = cstring path := by
  unfold pathString cstring
  rw [List.takeWhile_append]
  split
  · next h => rw [List.takeWhile_cons_of_neg (by simp), List.append_nil,
      (List.takeWhile_prefix _).eq_of_length h]
  · rfl

/-- The name that `renderFile` opens for a path, if it opens one. -/
def openName (path : List UInt8) : Option (List UInt8) :=
  match pathString path with
  | [] => none
  | _ :: name => some name

namespace HttpUtil

variable (strerror : Errno → List UInt8) (socket : SocketStream)

theorem renderFile_congr {open_ open_' : List UInt8 → Opened} (path : List UInt8)
    (h : ∀ name, openName path = some name → open_ name = open_' name) :
    renderFile strerror open_ socket (pathString path) =
      renderFile strerror open_' socket (pathString path) := by
  unfold openName at h
  cases hp : pathString path with
  | nil => rfl
  | cons ch name =>
      rw [hp] at h
      simp only [renderFile, h name rfl]

/-- **This is the name that `renderFile` asks for**: what becomes of it makes a difference, and what
becomes of any other does not. -/
theorem openName_eq_some_iff (path name : List UInt8) :
    openName path = some name ↔ ∃ open_ open_' : List UInt8 → Opened,
      (∀ other, other ≠ name → open_ other = open_' other) ∧
        renderFile strerror open_ socket (pathString path) ≠
          renderFile strerror open_' socket (pathString path) := by
  constructor
  · intro h
    refine ⟨fun _ => .openFails ENOENT, fun other => if other = name then .directory else
      .openFails ENOENT, fun other hne => (if_neg hne).symm, fun heq => ?_⟩
    unfold openName at h
    cases hp : pathString path with
    | nil =>
        rw [hp] at h
        cases h
    | cons ch rest =>
        rw [hp] at h heq
        obtain rfl := Option.some.inj h
        have hstatus := congrArg Prod.fst heq
        simp [renderFile, render404, render500] at hstatus
  · rintro ⟨open_, open_', hother, hne⟩
    by_contra hc
    refine hne (renderFile_congr strerror socket path fun name' hname' => hother name' ?_)
    rintro rfl
    exact hc hname'

end HttpUtil

/-! ### Where a name leads -/

/-- The components of a name. -/
def components (name : List UInt8) : List (List UInt8) := name.splitOn 47

/-- What a component does to the directory one is in. -/
def move (component : List UInt8) : Walk.Move (List UInt8) :=
  if component = [] ∨ component = ascii "." then .stay
  else if component = ascii ".." then .up
  else .down component

/-- The name is relative, and normalised component by component it stays in the directory. -/
structure Confined (name : List UInt8) : Prop where
  relative : name.head? ≠ some 47
  inside : (Walk.walk ((components name).map move) []).isSome

/-- The component is a name of its own. -/
def isName (component : List UInt8) : Bool :=
  component ≠ [] && component ≠ ascii "." && component ≠ ascii ".."

theorem isUp_move (component : List UInt8) :
    (move component).isUp = (component == ascii "..") := by
  unfold move
  by_cases h : component = [] ∨ component = ascii "."
  · rw [if_pos h]
    rcases h with rfl | rfl
    · rfl
    · rfl
  · rw [if_neg h]
    by_cases hup : component = ascii ".."
    · rw [if_pos hup, hup]
      rfl
    · rw [if_neg hup, beq_eq_false_iff_ne.mpr hup]
      rfl

theorem isDown_move (component : List UInt8) : (move component).isDown = isName component := by
  unfold move isName
  by_cases h : component = [] ∨ component = ascii "."
  · rw [if_pos h]
    rcases h with rfl | rfl
    · rfl
    · rfl
  · rw [if_neg h]
    rw [not_or] at h
    by_cases hup : component = ascii ".."
    · rw [if_pos hup, hup]
      rfl
    · rw [if_neg hup]
      simp [Walk.Move.isDown, h.1, h.2, hup]

theorem inside_iff (name : List UInt8) :
    (Walk.walk ((components name).map move) []).isSome ↔
      ∀ pre, pre <+: components name → pre.count (ascii "..") ≤ pre.countP isName := by
  have hup : Walk.Move.isUp ∘ move = (· == ascii "..") := funext isUp_move
  have hdown : Walk.Move.isDown ∘ move = isName := funext isDown_move
  rw [Walk.walk_isSome_iff]
  simp only [List.length_nil, Nat.zero_add]
  constructor
  · intro h pre hpre
    have := h (pre.map move) (hpre.map move)
    rwa [List.countP_map, List.countP_map, hup, hdown] at this
  · intro h pre hpre
    obtain ⟨pre', hpre', rfl⟩ := List.prefix_map_iff.mp hpre
    rw [List.countP_map, List.countP_map, hup, hdown]
    exact h pre' hpre'

/-- **What is served stays in the directory** exactly for the paths that have no second slash at
their beginning and, behind it, never more `..` than names. -/
theorem openName_confined_iff (path : List UInt8) :
    (∀ name, openName path = some name → Confined name) ↔
      ((cstring path).drop 1).head? ≠ some 47 ∧
        ∀ pre, pre <+: components ((cstring path).drop 1) →
          pre.count (ascii "..") ≤ pre.countP isName := by
  unfold openName
  rw [pathString_eq]
  cases cstring path with
  | nil =>
      refine iff_of_true (fun name h => by cases h) ⟨by simp, ?_⟩
      rw [← inside_iff]
      rfl
  | cons ch name =>
      rw [List.drop_succ_cons, List.drop_zero, ← inside_iff]
      constructor
      · intro h
        obtain ⟨hrel, hin⟩ := h name rfl
        exact ⟨hrel, hin⟩
      · rintro h name' hname
        rw [← Option.some.inj hname]
        exact ⟨h.1, h.2⟩

/-- A reader with 4096 bytes. -/
def pageReader : HttpHeadReader := ⟨[], fun _ => 0, 4096, 0, 0, 0⟩

/-- A request for an absolute name. -/
def passwdSocket : Socket := [.bytes (ascii "GET //etc/passwd HTTP/1.1\r\n\r\n")]

/-- A client can have `/etc/passwd` opened. -/
theorem openName_escapes :
    ¬ ∀ (r : HttpHeadReader) (head : Head) (r' : HttpHeadReader),
      parse r headTable = .ok (head, r') → head.isValid = true →
        ∀ name, openName head.path = some name → Confined name := by
  intro h
  have hpath : (parse (pageReader.reset passwdSocket) headTable).map (fun p =>
      (p.1.isValid, openName p.1.path)) = .ok (true, some (ascii "/etc/passwd")) := rfl
  cases hp : parse (pageReader.reset passwdSocket) headTable with
  | error e =>
      rw [hp] at hpath
      cases hpath
  | ok p =>
      rw [hp] at hpath
      obtain ⟨hvalid, hname⟩ := Prod.mk.inj (Except.ok.inj hpath)
      exact (h _ p.1 p.2 hp hvalid _ hname).relative rfl

end LinuxUtil.Httpd
