/-
The responses of `HttpUtil` in `apt/libhttpd/httpd.cpp`, and the parts of `SocketStream`
they are written with.

A C string is a list of bytes up to its first NUL.  A file descriptor is, like a socket,
the list of what is still to be read from it.  The texts of `strerror` and what the file
system has under a name are parameters.
-/
import LinuxUtil.Httpd.Client

namespace LinuxUtil.Httpd

open ByteMem

def ENOENT : Errno := 2

def EISDIR : Errno := 21

def strlen (str : List UInt8) : Nat := (cstring str).length

/-- What `snprintf` makes of a `size_t` with `%zu`, which fits into its 32 bytes. -/
def snprintf_zu (length : Nat) : List UInt8 :=
  (Nat.toDigits 10 length).map fun c => UInt8.ofNat c.toNat

namespace SocketStream

/-- `stream << str`. -/
def putStr (s : SocketStream) (str : List UInt8) : SocketStream := s.write (cstring str)

/-- `stream << length`. -/
def putSize (s : SocketStream) (length : Nat) : SocketStream := s.write (snprintf_zu length)

/-- The loop of `forward`, which reads into the stream's own buffer. -/
def forwardLoop : Nat → Socket → SocketStream → SocketStream
  | 0, _, s => s
  | n + 1, fd, s =>
      match fd.read s.bufferSize with
      | (.error _, _) => s
      | (.ok [], _) => s
      | (.ok (c :: cs), fd) =>
          let s := { s with buffer := ByteMem.write s.buffer 0 (c :: cs), offset := (c :: cs).length }
          forwardLoop n fd s.flush

def forward (s : SocketStream) (fd : Socket) : SocketStream :=
  forwardLoop (fd.bytes.length + 1) fd s.flush

end SocketStream

/-- `HttpHandler::doProduce`: what it puts on the socket. -/
def doProduce (produce : SocketStream → SocketStream) (buf : Mem) (bufSize : Nat) : List UInt8 :=
  (produce ⟨buf, 0, bufSize, []⟩).flush.sent

namespace HttpUtil

def render404 (socket : SocketStream) : Nat × SocketStream :=
  (404, socket.putStr (ascii "HTTP/1.1 404 Not Found\r\n" ++
    ascii "Connection: close\r\n" ++
    ascii "Content-Length: 18\r\n" ++
    ascii "Content-Type: text/html\r\n\r\n" ++
    ascii "<h1>Not Found</h1>"))

def render500 (strerror : Errno → List UInt8) (socket : SocketStream) (err : Errno) :
    Nat × SocketStream :=
  let body := ascii "<h1>Internal Server Error</h1>"
  let message := if err ≠ 0 then strerror err else ascii ""
  let socket := socket.putStr (ascii "HTTP/1.1 500 Internal Server Error\r\n" ++
    ascii "Connection: close\r\n" ++
    ascii "Content-Length: ")
  let socket := socket.putSize (strlen body + strlen message + strlen (ascii "<h2></h2>"))
  let socket := socket.putStr (ascii "\r\n" ++ ascii "Content-Type: text/html\r\n\r\n")
  let socket := (((socket.putStr body).putStr (ascii "<h2>")).putStr message).putStr (ascii "</h2>")
  (500, socket)

/-- What `open` and `fstat` make of a name. -/
inductive Opened
  | openFails (err : Errno)
  | fstatFails (err : Errno)
  | directory
  | file (st_size : Nat) (fd : Socket)

/-- `renderFile` of a path that is a C string, without its NUL. -/
def renderFile (strerror : Errno → List UInt8) (open_ : List UInt8 → Opened) (socket : SocketStream)
    (path : List UInt8) : Nat × SocketStream :=
  match path with
  | [] => render500 strerror socket EINVAL
  | _ :: name =>
      match open_ name with
      | .openFails err => if err = ENOENT then render404 socket else render500 strerror socket err
      | .fstatFails err => render500 strerror socket err
      | .directory => render500 strerror socket EISDIR
      | .file contentLength fd =>
          let socket := ((socket.putStr (ascii "HTTP/1.1 200 OK\r\n" ++
            ascii "Connection: close\r\n" ++
            ascii "Content-Length: ")).putSize contentLength).putStr (ascii "\r\n\r\n")
          (200, socket.forward fd)

end HttpUtil

end LinuxUtil.Httpd
