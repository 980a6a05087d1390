/-
`Socket::xwrite` of `apt/libhttpd/httpd.h`, and what is written with it.

`write(2)` may take less than it is given, and it may fail.  `Sink` is a descriptor
that is written to, with what its calls are going to answer.  `SocketStream` in
`Httpd/Client.lean` is over a socket that takes everything at once; the one here is over
a descriptor, through `xwrite`.  What the program does with a stream is a list of calls.
-/
import LinuxUtil.Httpd.Util

namespace LinuxUtil.Httpd

open ByteMem

/-! ### Descriptors -/

/-- A descriptor: what it has taken, how often it was written to, and how many bytes each call is
ready to take.  An answer that is not positive is an error. -/
structure Sink where
  got : List UInt8
  calls : Nat
  answer : Nat → Int

namespace Sink

/-- `write(2)`. -/
def write (fd : Sink) (buf : List UInt8) : Int × Sink :=
  let fd' := { fd with calls := fd.calls + 1 }
  if fd.answer fd.calls ≤ 0 then (fd.answer fd.calls, fd')
  else
    let len := min (fd.answer fd.calls).toNat buf.length
    (len, { fd' with got := fd.got ++ buf.take len })

/-- The loop of `xwrite`.  Every round that goes on writes a byte. -/
def xwriteLoop (buf : List UInt8) : Nat → Sink → Nat → Int × Sink
  | 0, fd, written => (written, fd)
  | n + 1, fd, written =>
      if written < buf.length then
        let (len, fd) := fd.write (buf.drop written)
        if len ≤ 0 then (if written = 0 then len else written, fd)
        else xwriteLoop buf n fd (written + len.toNat)
      else (written, fd)

def xwrite (fd : Sink) (buf : List UInt8) : Int × Sink := xwriteLoop buf (buf.length + 1) fd 0

end Sink

/-- `AptClientHandler::consume`, which writes to an open file. -/
def AptClientHandler.consume (ofd : Sink) (b : List UInt8) : Bool × Sink :=
  let (ret, ofd) := ofd.xwrite b
  (ret == b.length, ofd)

/-- The answer to the last of the pieces that were written to the file. -/
def AptClientHandler.consumer (ofd : Sink) : Consumer := fun pieces =>
  (pieces.foldl (fun s b => AptClientHandler.consume s.2 b) (true, ofd)).1

/-! ### Streams -/

namespace Wire

structure SocketStream where
  socket : Sink
  buffer : Mem
  offset : Nat
  bufferSize : Nat

namespace SocketStream

def create (socket : Sink) (buffer : Mem) (size : Nat) : SocketStream := ⟨socket, buffer, 0, size⟩

def flush (s : SocketStream) : SocketStream :=
  if s.offset ≠ 0 then
    { s with socket := (s.socket.xwrite (read s.buffer 0 s.offset)).2, offset := 0 }
  else s

def write (s : SocketStream) (src : List UInt8) : SocketStream :=
  let s := if s.offset + src.length > s.bufferSize then s.flush else s
  if src.length > s.bufferSize then { s with socket := (s.socket.xwrite src).2 }
  else { s with buffer := ByteMem.write s.buffer s.offset src, offset := s.offset + src.length }

/-- The loop of `forward`, which reads into the stream's own buffer. -/
def forwardLoop : Nat → Socket → SocketStream → SocketStream
  | 0, _, s => s
  | n + 1, fd, s =>
      match fd.read s.bufferSize with
      | (.error _, _) => s
      | (.ok [], _) => s
      | (.ok (c :: cs), fd) =>
          let s := { s with buffer := ByteMem.write s.buffer 0 (c :: cs), offset := (c :: cs).length }
          forwardLoop n fd s.flush

def forward (s : SocketStream) (fd : Socket) : SocketStream :=
  forwardLoop (fd.bytes.length + 1) fd s.flush

/-- The destructor. -/
def destroy (s : SocketStream) : SocketStream := s.flush

/-- The calls on a stream; `put` is `operator<<`. -/
inductive Call
  | write (src : List UInt8)
  | putVec (vec : List UInt8)
  | putStr (str : List UInt8)
  | putSize (length : Nat)
  | flush
  | forward (fd : Socket)

def step (s : SocketStream) : Call → SocketStream
  | .write src => s.write src
  | .putVec vec => s.write vec
  | .putStr str => s.write (cstring str)
  | .putSize length => s.write (snprintf_zu length)
  | .flush => s.flush
  | .forward fd => s.forward fd

def run (s : SocketStream) (calls : List Call) : SocketStream := calls.foldl step s

end SocketStream

end Wire

end LinuxUtil.Httpd
