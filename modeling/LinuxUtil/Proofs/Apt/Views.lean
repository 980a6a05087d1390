/-
The views that `urlparse` gives of a URL.

A view is two offsets of one cursor.  Wherever the loop over the host has left the cursor
(`parseHost_cases`), the host ends there, and the path runs from there or from behind the
port to the end of the string.
-/
import LinuxUtil.Proofs.Apt.Url

namespace LinuxUtil.Apt

open CString
open Httpd (decimal isdigit)

/-- The view is of `text`, which has `rest` behind it. -/
def UrlStrView.Shows (v : UrlStrView) (url text rest : List UInt8) : Prop :=
  ∃ pre, url = pre ++ (text ++ rest) ∧ v.begin.toNat = pre.length ∧
    v.end_.toNat = pre.length + text.length

/-- What follows a host, a port and a path, and the value of the port. -/
inductive Behind : List UInt8 → List UInt8 → Nat → Prop
  | none : Behind [] [] 0
  | path (path : List UInt8) : Behind [] (47 :: path) 0
  | port {digits : List UInt8} (path : List UInt8) :
      IsPort digits → Behind (58 :: digits) (47 :: path) (decimal digits)

/-- The default port of a scheme. -/
def schemePort (proto : Nat) : Nat := if proto = 2 then 443 else 80

/-- The views of what is behind the scheme. -/
structure Views (url : List UInt8) (result : UrlParse) (host port path : List UInt8) : Prop where
  is_host : IsHost host
  host_view : result.host.Shows url host (port ++ path)
  port_value : ∃ value, Behind port path value ∧
    result.port.toNat = if value = 0 then schemePort result.proto else value
  no_path : path = [] → result.path = ⟨0, 0⟩ ∧ result.ofile = ⟨0, 0⟩
  path_view : path ≠ [] → result.path.Shows url path []
  ofile_view : path ≠ [] →
    ∃ dir file, path = dir ++ 47 :: file ∧ 47 ∉ file ∧ result.ofile.Shows url file []

/-! ### Offsets -/

theorem toNat_urlOffset {url pre rest : List UInt8} (hlen : url.length < 2 ^ 31) (hurl : url = pre ++ rest) :
    (urlOffset url rest).toNat = pre.length := by
  rw [urlOffset, UInt32.toNat_ofNat_of_lt' (show _ < 2 ^ 32 by omega), hurl, List.length_append]
  exact Nat.add_sub_cancel _ _

theorem shows_of_offsets {url pre text rest : List UInt8} (hlen : url.length < 2 ^ 31)
    (hurl : url = pre ++ (text ++ rest)) :
    (⟨urlOffset url (text ++ rest), urlOffset url rest⟩ : UrlStrView).Shows url text rest := by
  refine ⟨pre, hurl, toNat_urlOffset hlen hurl, ?_⟩
  rw [← List.append_assoc] at hurl
  exact (toNat_urlOffset hlen hurl).trans List.length_append

theorem shows_to_end {url pre text : List UInt8} (hlen : url.length < 2 ^ 31) (hurl : url = pre ++ text) :
    (⟨urlOffset url text, UInt32.ofNat url.length⟩ : UrlStrView).Shows url text [] := by
  rw [← List.append_nil text] at hurl
  have hshows := shows_of_offsets hlen hurl
  rw [List.append_nil] at hshows
  exact hshows

theorem urlOffset_next {url pre rest : List UInt8} {c : UInt8} (hurl : url = pre ++ c :: rest) :
    urlOffset url (c :: rest) + 1 = urlOffset url rest := by
  have hlen : url.length - (c :: rest).length + 1 = url.length - rest.length := by
    rw [hurl, List.length_append, List.length_cons]
    omega
  rw [urlOffset, urlOffset, ← hlen, UInt32.ofNat_add]
  rfl

/-! ### Replies -/

theorem defaultPort_port {result : UrlParse} {value : Nat}
    (hproto : result.proto = 1 ∨ result.proto = 2) (hport : result.port.toNat = value) :
    (defaultPort result).port.toNat =
      if value = 0 then schemePort (defaultPort result).proto else value := by
  have hzero : value = 0 ↔ result.port = 0 := hport ▸ UInt16.toNat_inj (b := 0)
  rw [defaultPort_proto]
  unfold defaultPort schemePort
  by_cases hnone : result.port = 0
  · rw [if_pos hnone, if_pos (hzero.mpr hnone)]
    rcases hproto with h | h
    · rw [if_pos h, if_neg (by rw [h]; decide)]
      rfl
    · rw [if_neg (by rw [h]; decide), if_pos h, if_pos h]
      rfl
  · rw [if_neg hnone, if_neg (mt hzero.mp hnone), hport]

theorem checkHost_passed {result : UrlParse} {reply : UrlReply}
    (hok : (.ok (checkHost result) : Except Fault UrlReply) = .ok reply) (hret : reply.ret = 0) :
    reply.result = result ∧ result.host.begin < result.host.end_ := by
  obtain ⟨hzero, hresult⟩ := checkHost_spec result
  rw [← Except.ok.inj hok] at hret ⊢
  exact ⟨hresult, hzero.mp hret⟩

variable {url front host : List UInt8} {reply : UrlReply}

/-- A view that is not empty is of a host. -/
theorem host_of_passed {v : UrlStrView} {rest : List UInt8} (hlen : url.length < 2 ^ 31)
    (hurl : url = front ++ (host ++ rest)) (hhost : ∀ c ∈ host, hostChar c)
    (hview : v = ⟨urlOffset url (host ++ rest), urlOffset url rest⟩) (hlt : v.begin < v.end_) :
    IsHost host ∧ v.Shows url host rest := by
  have hle : (host ++ rest).length ≤ url.length := by
    rw [hurl, @List.length_append _ front]
    exact Nat.le_add_left _ _
  rw [hview] at hlt ⊢
  exact ⟨⟨(urlOffset_lt hlen hle).mp hlt, hhost⟩, shows_of_offsets hlen hurl⟩

/-- A host at the end. -/
theorem views_of_nil (result : UrlParse) (hlen : url.length < 2 ^ 31) (hurl : url = front ++ (host ++ []))
    (hhost : ∀ c ∈ host, hostChar c) (hproto : result.proto = 1 ∨ result.proto = 2)
    (hport : result.port.toNat = 0) (hbegin : result.host.begin = urlOffset url (host ++ []))
    (hok : parsePath url (defaultPort result) [] = .ok reply) (hret : reply.ret = 0) :
    Views url reply.result host [] [] ∧ reply.result.proto = result.proto := by
  obtain ⟨hresult, hlt⟩ := checkHost_passed hok hret
  rw [← defaultPort_host] at hbegin
  have hview := congrArg (UrlStrView.mk · (urlOffset url [])) hbegin
  obtain ⟨hishost, hshows⟩ := host_of_passed hlen hurl hhost hview hlt
  rw [hresult]
  exact ⟨⟨hishost, hshows, ⟨0, .none, defaultPort_port hproto hport⟩, fun _ => ⟨rfl, rfl⟩, absurd rfl,
    absurd rfl⟩, defaultPort_proto result⟩

/-- A host in front of a path, and perhaps a port between them. -/
theorem views_of_path (result : UrlParse) {port path : List UInt8} {value : Nat}
    (hlen : url.length < 2 ^ 31)
    (hurl : url = front ++ (host ++ (port ++ 47 :: path))) (hhost : ∀ c ∈ host, hostChar c)
    (hbehind : Behind port (47 :: path) value) (hproto : result.proto = 1 ∨ result.proto = 2)
    (hport : result.port.toNat = value)
    (hview : result.host =
      ⟨urlOffset url (host ++ (port ++ 47 :: path)), urlOffset url (port ++ 47 :: path)⟩)
    (hok : parsePath url (defaultPort result) (47 :: path) = .ok reply) (hret : reply.ret = 0) :
    Views url reply.result host port (47 :: path) ∧ reply.result.proto = result.proto := by
  obtain ⟨dir, file, hpath, hfile, heq⟩ := parsePath_slash_eq url path (defaultPort result)
  rw [heq] at hok
  obtain ⟨hresult, hlt⟩ := checkHost_passed hok hret
  obtain ⟨hishost, hshows⟩ := host_of_passed hlen hurl hhost ((defaultPort_host result).trans hview) hlt
  have hfront : url = (front ++ host ++ port) ++ 47 :: path := by
    rw [hurl]
    simp only [List.append_assoc]
  rw [hresult]
  refine ⟨⟨hishost, hshows, ⟨value, hbehind, defaultPort_port hproto hport⟩, nofun,
    fun _ => shows_to_end hlen hfront, fun _ => ⟨dir, file, hpath, hfile, ?_⟩⟩, defaultPort_proto result⟩
  rw [hpath, ← List.append_assoc] at hfront
  have hnext : url = (front ++ host ++ port ++ dir ++ [47]) ++ file := by
    rw [hfront, List.append_assoc _ [47]]
    rfl
  dsimp only
  rw [urlOffset_next hfront]
  exact shows_to_end hlen hnext

/-- **What is behind the scheme is sliced as it is cut.** -/
theorem parseHost_views {result : UrlParse} {rest : List UInt8} (hlen : url.length < 2 ^ 31)
    (hurl : url = front ++ rest)
    (hproto : result.proto = 1 ∨ result.proto = 2) (hport : result.port = 0)
    (hok : parseHost url result rest = .ok reply) (hret : reply.ret = 0) :
    ∃ host port path, rest = host ++ (port ++ path) ∧ Views url reply.result host port path ∧
      reply.result.proto = result.proto := by
  have hzero : result.port.toNat = 0 := by rw [hport]; rfl
  obtain ⟨host, behind, rfl, hhost, hcases⟩ := parseHost_cases url result rest
  rcases hcases with ⟨rfl, heq⟩ | ⟨path, rfl, heq⟩ | ⟨digits, path, hdigits, rfl, heq⟩ |
    ⟨s, result', text, -, -, -, heq⟩
  · rw [heq] at hok
    exact ⟨host, [], [], rfl, views_of_nil { result with host.begin := urlOffset url (host ++ []) }
      hlen hurl hhost hproto hzero rfl hok hret⟩
  · rw [heq] at hok
    exact ⟨host, [], 47 :: path, rfl, views_of_path { result with
      host := ⟨urlOffset url (host ++ 47 :: path), urlOffset url (47 :: path)⟩ }
      hlen hurl hhost (.path path) hproto hzero rfl hok hret⟩
  · rw [heq] at hok
    have hvalue : (UInt16.ofNat (decimal digits)).toNat = decimal digits :=
      UInt16.toNat_ofNat_of_lt' (Nat.lt_succ_of_le hdigits.2)
    exact ⟨host, 58 :: digits, 47 :: path, rfl, views_of_path { result with
      host := ⟨urlOffset url (host ++ 58 :: (digits ++ 47 :: path)),
        urlOffset url (58 :: (digits ++ 47 :: path))⟩
      port := UInt16.ofNat (decimal digits) }
      hlen hurl hhost (.port path hdigits) hproto hvalue rfl hok hret⟩
  · rw [heq] at hok
    rw [← Except.ok.inj hok] at hret
    cases hret

/-! ### URLs -/

theorem protoOf_cases {scheme : List UInt8} (h : protoOf scheme ≠ 0) :
    protoOf scheme = 1 ∧ scheme <+: ascii "http" ∨ protoOf scheme = 2 ∧ scheme = ascii "https" := by
  have hcut : ∀ {scheme}, scheme <+: ascii "http" → protoOf scheme = 1 := fun hpre => if_pos hpre
  rcases protoOf_eq h with ⟨hpre, -⟩ | rfl | rfl
  · exact .inl ⟨hcut hpre, hpre⟩
  · exact .inl ⟨rfl, List.prefix_rfl⟩
  · exact .inr ⟨by decide, rfl⟩

/-- **Every URL that `urlparse` takes is sliced correctly.** -/
theorem urlparse_views {url : List UInt8} (hnul : 0 ∉ url) (hlen : url.length < 2 ^ 31)
    {result : UrlParse} {reply : UrlReply} (hok : urlparse url result = .ok reply) (hret : reply.ret = 0) :
    ∃ scheme host port path, url = scheme ++ (ascii "://" ++ (host ++ (port ++ path))) ∧
      (∀ pre post, url = pre ++ (ascii "://" ++ post) → scheme.length ≤ pre.length) ∧
      (reply.result.proto = 1 ∧ scheme <+: ascii "http" ∨
        reply.result.proto = 2 ∧ scheme = ascii "https") ∧
      reply.result.host.begin.toNat = scheme.length + 3 ∧
      Views url reply.result host port path := by
  rcases urlparse_cases hnul result with ⟨result', text, hok', -⟩ | ⟨scheme, rest, hurl, hsep, hzero, hok'⟩
  · rw [hok'] at hok
    rw [← Except.ok.inj hok] at hret
    cases hret
  · rw [hok'] at hok
    have hfront : url = (scheme ++ ascii "://") ++ rest := by rw [hurl, List.append_assoc]
    have hproto := protoOf_cases hzero
    obtain ⟨host, port, path, rfl, hviews, hsame⟩ :=
      parseHost_views hlen hfront (hproto.imp And.left And.left) rfl hok hret
    refine ⟨scheme, host, port, path, hurl, fun pre post heq => ?_, ?_, ?_, hviews⟩
    · -- the first separator has the most behind it
      have hlength := strstr_first hsep heq (List.prefix_append _ _)
      have htotal := congrArg List.length (hurl.symm.trans heq)
      rw [List.length_append, @List.length_append _ pre] at htotal
      omega
    · rw [hsame]
      exact hproto
    · obtain ⟨pre, hpre, hbegin, -⟩ := hviews.host_view
      have hlength := congrArg List.length (hfront.symm.trans hpre)
      rw [hbegin]
      simp only [List.length_append] at hlength
      have hsep : (ascii "://").length = 3 := rfl
      omega

/-- A URL with a port and a path. -/
theorem urlparse_views_full :
    ∃ host port path, Views (ascii "https://deb:8080/dists/Release")
      ⟨2, ⟨8, 11⟩, ⟨16, 30⟩, ⟨23, 30⟩, 8080⟩ host port path := by
  have hok : urlparse (ascii "https://deb:8080/dists/Release") ⟨0, ⟨0, 0⟩, ⟨0, 0⟩, ⟨0, 0⟩, 0⟩ =
      .ok ⟨0, ⟨2, ⟨8, 11⟩, ⟨16, 30⟩, ⟨23, 30⟩, 8080⟩, none⟩ := by decide +kernel
  obtain ⟨-, host, port, path, -, -, -, -, hviews⟩ := urlparse_views (by decide) (by decide) hok rfl
  exact ⟨host, port, path, hviews⟩

end LinuxUtil.Apt
