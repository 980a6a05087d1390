/-
A daemon whose handler renders files, and a client that fetches them.

`renderFile` closes the connection in every answer, and so does a handler by default; the
two agree.  Then every call is answered on a connection of its own, a file that is there
arrives whole, and for everything else the call fails: `files_fetched`.
-/
import LinuxUtil.Proofs.Httpd.Dialogue

namespace LinuxUtil.Httpd

open ByteMem

namespace HttpUtil

/-! ### What is answered -/

/-- What a name stands for on the server. -/
inductive Served
  /-- `open` fails. -/
  | missing (err : Errno)
  /-- `fstat` fails. -/
  | unreadable (err : Errno)
  | directory
  | file (served : ServedFile)

def Served.opened : Served → Opened
  | .missing err => .openFails err
  | .unreadable err => .fstatFails err
  | .directory => .directory
  | .file served => served.opened

theorem start404_printable : ∀ b ∈ ascii "HTTP/1.1 404 Not Found", Printable b :=
  forall_of_all (by decide)

theorem start500_printable : ∀ b ∈ ascii "HTTP/1.1 500 Internal Server Error", Printable b :=
  forall_of_all (by decide)

/-- The head of an error response has its start line's words. -/
theorem errorHead_words (start : List UInt8) (hstart : ∀ b ∈ start, Printable b) (length : Nat) :
    (errorHead start hstart length).head.method = (nextToken start).1 ∧
      (errorHead start hstart length).head.path = (nextToken (nextToken start).2).1 := ⟨rfl, rfl⟩

/-- An error response, whose start line has another status. -/
def errorAnswer (start : List UInt8) (hstart : ∀ b ∈ start, Printable b)
    (hwords : (nextToken start).1 ≠ [] ∧ (nextToken (nextToken start).2).1 ≠ [] ∧
      atoi (cstring (nextToken (nextToken start).2).1) ≠ 200) (body : List UInt8) : Answer :=
  .other (errorHead start hstart body.length)
    (by
      obtain ⟨hmethod, hpath, -⟩ := hwords
      unfold Head.isValid
      rw [(errorHead_words start hstart _).1, (errorHead_words start hstart _).2]
      simp [hmethod, hpath])
    hwords.2.2 body

def answer404 : Answer :=
  errorAnswer (ascii "HTTP/1.1 404 Not Found") start404_printable (by decide) (ascii "<h1>Not Found</h1>")

def answer500 (strerror : Errno → List UInt8) (err : Errno) : Answer :=
  errorAnswer (ascii "HTTP/1.1 500 Internal Server Error") start500_printable (by decide)
    (body500 (message500 strerror err))

/-- A file, whole. -/
def fileAnswer (file : ServedFile) : Answer :=
  .ok (fileResponse file.pieces.flatten file.lt) (Digits.val_ofSize _ file.lt).symm

/-- What `renderFile` answers for what a name stands for. -/
def Served.answer (strerror : Errno → List UInt8) : Served → Answer
  | .missing err => if err = ENOENT then answer404 else answer500 strerror err
  | .unreadable err => answer500 strerror err
  | .directory => answer500 strerror EISDIR
  | .file served => fileAnswer served

/-- What it answers for a path. -/
def answerFor (strerror : Errno → List UInt8) (tree : List UInt8 → Served) : List UInt8 → Answer
  | [] => answer500 strerror EINVAL
  | _ :: name => (tree name).answer strerror

section Sent

variable (strerror : Errno → List UInt8) (buf : Mem) (bufSize : Nat)

theorem render404_sent : doProduce (fun s => (render404 s).2) buf bufSize = answer404.render := by
  have hhead := errorHead_render (ascii "HTTP/1.1 404 Not Found") start404_printable 18
  rw [doProduce_eq]
  unfold render404
  rw [SocketStream.putStr_written]
  change _ = (errorHead (ascii "HTTP/1.1 404 Not Found") start404_printable 18).render ++
    ascii "<h1>Not Found</h1>"
  rw [hhead]
  rfl

theorem render500_sent (err : Errno) :
    doProduce (fun s => (render500 strerror s err).2) buf bufSize = (answer500 strerror err).render := by
  have hhead := errorHead_render (ascii "HTTP/1.1 500 Internal Server Error") start500_printable
    (body500 (message500 strerror err)).length
  have hrender : (answer500 strerror err).render =
      (errorHead (ascii "HTTP/1.1 500 Internal Server Error") start500_printable
        (body500 (message500 strerror err)).length).render ++ body500 (message500 strerror err) := rfl
  rw [hrender, hhead, doProduce_eq, ← length_body500]
  unfold render500
  simp only [SocketStream.putStr_written, SocketStream.putSize_written, List.append_assoc]
  rfl

/-- **What `renderFile` sends is that answer**, whatever the buffer. -/
theorem renderFile_answer (tree : List UInt8 → Served) (path : List UInt8) (hsize : 1 ≤ bufSize) :
    doProduce (fun s => (renderFile strerror (fun name => (tree name).opened) s path).2) buf bufSize =
      (answerFor strerror tree path).render := by
  cases path with
  | nil => exact render500_sent strerror buf bufSize EINVAL
  | cons slash name =>
      rw [answerFor]
      cases htree : tree name with
      | missing err =>
          simp only [renderFile, htree, Served.opened, Served.answer]
          by_cases herr : err = ENOENT
          · simp only [if_pos herr]
            exact render404_sent buf bufSize
          · simp only [if_neg herr]
            exact render500_sent strerror buf bufSize err
      | unreadable err =>
          simp only [renderFile, htree, Served.opened]
          exact render500_sent strerror buf bufSize err
      | directory =>
          simp only [renderFile, htree, Served.opened]
          exact render500_sent strerror buf bufSize EISDIR
      | file served =>
          have hopen : (tree name).opened =
              .file served.pieces.flatten.length (served.pieces.map .bytes) := by
            rw [htree, Served.opened, ServedFile.opened, ServedFile.content]
          exact renderFile_sent served.live served.lt hopen buf hsize

end Sent

/-! ### What is fetched -/

/-- The path of the last request, as a C string without its NUL. -/
def pathOf (done : List Delivered) : List UInt8 := (done.getLast?.map Delivered.path).getD []

/-- A handler that renders files, and leaves the rest as it is by default. -/
structure Renders (h : HttpHandler) (strerror : Errno → List UInt8) (tree : List UInt8 → Served) : Prop where
  produce : h.produce = fun done stream =>
    (renderFile strerror (fun name => (tree name).opened) stream (pathOf done)).2
  connectionClosed : h.connectionClosed = fun _ => true

section Fetch

variable {h : HttpHandler} {strerror : Errno → List UInt8} {tree : List UInt8 → Served}

def Renders.answering (hh : Renders h strerror tree) : Answering h where
  answer := fun done => answerFor strerror tree (pathOf done)
  sends := by
    intro done buf size hsize
    rw [hh.produce]
    exact renderFile_answer strerror buf size tree (pathOf done) hsize

theorem Served.answer_closes (served : Served) (isLast : Bool) :
    ¬ (served.answer strerror).Keeps isLast := by
  cases served with
  | missing err =>
      by_cases herr : err = ENOENT
      · rw [Served.answer, if_pos herr]
        exact id
      · rw [Served.answer, if_neg herr]
        exact id
  | unreadable err => exact id
  | directory => exact id
  | file served => exact not_not_intro (fileResponse_closes _ _ _)

/-- Every answer closes the connection. -/
theorem answerFor_closes (path : List UInt8) (isLast : Bool) :
    ¬ (answerFor strerror tree path).Keeps isLast := by
  cases path with
  | nil => exact id
  | cons slash name => exact Served.answer_closes (tree name) isLast

/-- A call for what a name stands for brings the file, or fails. -/
def Served.Arrives : Served → Result → Prop
  | .file served, res => res.ret = 0 ∧ res.consumed.flatten = served.content
  | _, res => res.Failed

theorem Served.arrives {served : Served} {res : Result} (h : (served.answer strerror).Received res) :
    served.Arrives res := by
  cases served with
  | missing err =>
      by_cases herr : err = ENOENT
      · rw [Served.answer, if_pos herr] at h
        exact h
      · rw [Served.answer, if_neg herr] at h
        exact h
  | unreadable err => exact h
  | directory => exact h
  | file served => exact h

/-- What a fetch brings, on a connection of its own. -/
def Fetched (tree : List UInt8 → Served) (ask : Ask) (heard : Option Heard) : Prop :=
  ∃ x, heard = some x ∧ x.given = [ask.delivered] ∧ (tree (ask.path.drop 1)).Arrives x.result

/-- The link between two fetches. -/
theorem Renders.handle (hh : Renders h strerror tree) (ask : Ask) :
    hh.answering.handle [] ask =
      (.answered [ask.delivered] (answerFor strerror tree ask.path), .closed) := by
  unfold Answering.handle Answering.after
  exact congrArg (Prod.mk _) (if_neg (answerFor_closes ask.path ask.isLast))

/-- One fetch. -/
theorem Renders.refines (hh : Renders h strerror tree) {host : List UInt8} (hprint : ∀ b ∈ host, isprint b) :
    Runs.Refines (fun d link => Link.At host d link ∧ link = .closed)
      (fun ask _ heard => Fetched tree ask heard)
      (fun ask : Ask => ask.WellFormed ∧ ask.connect = true) (Dialogue.call h)
      (Link.call hh.answering) := by
  intro d link ask hd hask
  obtain ⟨hd, rfl⟩ := hd
  obtain ⟨heard, d', hstep, hmet, hd'⟩ :=
    Link.refines hh.answering hprint d .closed (.request ask) hd hask.1
  rw [Link.next, if_pos hask.2, hh.handle] at hmet hd'
  have hlink : (Link.call hh.answering .closed ask).2 = .closed := by
    rw [Link.call, Link.next, if_pos hask.2, hh.handle]
  cases heard with
  | none => cases hmet
  | some x =>
      refine ⟨some x, d', hstep, ⟨x, rfl, hmet.2, ?_⟩, hlink.symm ▸ hd', hlink⟩
      obtain ⟨slash, name, hpath⟩ := List.exists_cons_of_ne_nil hask.1.path_ne
      have hreceived : (answerFor strerror tree ask.path).Received x.result := hmet.1
      rw [hpath] at hreceived ⊢
      exact Served.arrives hreceived

end Fetch

end HttpUtil

end LinuxUtil.Httpd
