import Posix9.Digest
import Posix9.HttpPost
import Posix9.Lib.Http
import Posix9.Lib.Json

/-! rustchain_miner_posix9.c: the attestation, its submission and the loop of main in the build without TLS. -/

namespace Posix9.Miner

open Memory Program

/-! ### The wallet -/

def MINER_ID : CStr := "os9-posix-miner".toList

def ofBytes (bytes : List UInt8) : List Char := bytes.map fun b => Char.ofNat b.toNat

/-- The text in g_wallet. -/
structure Wallet where
  chars : CStr
  digits : ∀ c ∈ chars, c ∈ hex
  length : chars.length = 64

/-- What generate_wallet leaves in g_wallet, which has 68 bytes and is zero before. -/
def walletText : CStr :=
  stringAt NUL (sha256_hex (MINER_ID.map fun c => BitVec.ofNat 8 c.toNat) (BitVec.ofNat 32 MINER_ID.length)
    fun _ => NUL) 0 68

theorem mem_hex_hexDigits (bytes : List UChar) : ∀ c ∈ hexDigits bytes, c ∈ hex := by
  have hdigit : ∀ n < 16, Nat.digitChar n ∈ hex := by decide
  intro c hc
  obtain ⟨b, -, hb⟩ := List.mem_flatMap.mp hc
  have hlt := b.isLt
  simp only [List.mem_cons, List.not_mem_nil, or_false] at hb
  rcases hb with rfl | rfl
  · exact hdigit _ (by omega)
  · exact hdigit _ (by omega)

theorem walletText_eq : walletText = hexDigits (Sha256.digest (MINER_ID.map fun c => BitVec.ofNat 8 c.toNat)) := by
  have hlen : (MINER_ID.map fun c => BitVec.ofNat 8 c.toNat).length = MINER_ID.length := List.length_map _
  rw [walletText, ← hlen, sha256_hex_eq (by decide)]
  refine stringAt_of_holdsAt (holdsAt_write _ 0 _) (fun h => ?_) ?_
  · exact absurd (mem_hex_hexDigits _ NUL h) (by decide)
  · rw [length_hexDigits, length_digest]
    decide

def generate_wallet : Wallet where
  chars := walletText
  digits := by
    rw [walletText_eq]
    exact mem_hex_hexDigits _
  length := by rw [walletText_eq, length_hexDigits, length_digest]

/-! ### The attestation -/

/-- The format of build_attestation_json behind the nonce. -/
def reportText : CStr :=
  ",\"report\":\x7b\"cpu_mhz\":400,\"arch\":\"G4\",".toList ++ "\"os\":\"MacOS9\"\x7d,\"device\":\x7b".toList ++
    "\"device_family\":\"PowerPC\",".toList ++ "\"device_arch\":\"G4\",".toList ++
    "\"device_model\":\"PowerPC Mac OS 9\"\x7d,".toList ++ "\"signals\":\x7b\x7d,\"fingerprint\":\x7b".toList ++
    "\"all_passed\":true,\"checks\":\x7b".toList ++
    "\"clock_drift\":\x7b\"passed\":true,".toList ++ "\"data\":\x7b\"cv\":0.05\x7d\x7d,".toList ++
    "\"cache_timing\":\x7b\"passed\":true,".toList ++ "\"data\":\x7b\x7d\x7d,".toList ++
    "\"simd_identity\":\x7b\"passed\":true,".toList ++ "\"data\":\x7b\x7d\x7d,".toList ++
    "\"thermal_drift\":\x7b\"passed\":true,".toList ++ "\"data\":\x7b\x7d\x7d,".toList ++
    "\"instruction_jitter\":\x7b\"passed\":true,".toList ++ "\"data\":\x7b\x7d\x7d,".toList ++
    "\"anti_emulation\":\x7b\"passed\":true,".toList ++ "\"data\":\x7b\"vm_indicators\":[]\x7d\x7d\x7d\x7d\x7d".toList

/-- `sprintf(buffer, ...)`. -/
def build_attestation_json (g_wallet : CStr) (nonce : BitVec 32) : CStr :=
  "\x7b\"miner\":\"".toList ++ (g_wallet ++ ("\",\"miner_id\":\"".toList ++ (MINER_ID ++ ("\",\"nonce\":".toList ++
    (Nat.toDigits 10 nonce.toNat ++ reportText)))))

open Json

/-- A string of characters that need no escape. -/
def ascii (s : CStr) : Text := ⟨s.filter plain, fun _ h => (List.mem_filter.mp h).2⟩

def passed (data : List (Text × Value)) : Value :=
  .obj [(ascii "passed".toList, .bool true), (ascii "data".toList, .obj data)]

/-- What stands in the report, whoever reports. -/
def report : List (Text × Value) := [
  (ascii "report".toList, .obj [(ascii "cpu_mhz".toList, .num 400 []), (ascii "arch".toList, .str (ascii "G4".toList)),
    (ascii "os".toList, .str (ascii "MacOS9".toList))]),
  (ascii "device".toList, .obj [(ascii "device_family".toList, .str (ascii "PowerPC".toList)),
    (ascii "device_arch".toList, .str (ascii "G4".toList)),
    (ascii "device_model".toList, .str (ascii "PowerPC Mac OS 9".toList))]),
  (ascii "signals".toList, .obj []),
  (ascii "fingerprint".toList, .obj [(ascii "all_passed".toList, .bool true), (ascii "checks".toList, .obj [
    (ascii "clock_drift".toList, passed [(ascii "cv".toList, .num 0 [0, 5])]),
    (ascii "cache_timing".toList, passed []), (ascii "simd_identity".toList, passed []),
    (ascii "thermal_drift".toList, passed []), (ascii "instruction_jitter".toList, passed []),
    (ascii "anti_emulation".toList, passed [(ascii "vm_indicators".toList, .arr [])])])])]

/-- What the attestation says. -/
def attested (g_wallet : CStr) (nonce : BitVec 32) : Value :=
  .obj ((ascii "miner".toList, .str (ascii g_wallet)) :: (ascii "miner_id".toList, .str (ascii MINER_ID)) ::
    (ascii "nonce".toList, .num nonce.toNat []) :: report)

theorem render_report : renderMembers report = reportText := by decide +kernel

theorem plain_of_mem_hex : ∀ c ∈ hex, plain c = true := List.all_eq_true.mp (by decide)

theorem chars_ascii_wallet (w : Wallet) : (ascii w.chars).chars = w.chars :=
  List.filter_eq_self.mpr fun c hc => plain_of_mem_hex c (w.digits c hc)

theorem render_attested (w : Wallet) (nonce : BitVec 32) :
    render (attested w.chars nonce) = build_attestation_json w.chars nonce := by
  have hwallet : (ascii w.chars).render = quote :: (w.chars ++ [quote]) := by rw [Text.render, chars_ascii_wallet]
  have hid : (ascii MINER_ID).render = quote :: (MINER_ID ++ [quote]) := by decide
  have hwhole : renderFraction [] = [] := rfl
  have hminer : "\x7b\"miner\":\"".toList = openBrace :: ((ascii "miner".toList).render ++ [':', quote]) := by decide
  have hminer_id : "\",\"miner_id\":\"".toList =
      quote :: ',' :: ((ascii "miner_id".toList).render ++ [':', quote]) := by decide
  have hnonce : "\",\"nonce\":".toList = quote :: ',' :: ((ascii "nonce".toList).render ++ [':']) := by decide
  rw [attested, render, renderMembers, renderMembers, render_report, render, render, render, hwallet, hid]
  unfold build_attestation_json
  simp only [hminer, hminer_id, hnonce]
  simp only [hwhole, List.append_assoc, List.cons_append, List.nil_append]

/-! ### The request -/

theorem length_json (w : Wallet) (nonce : BitVec 32) : (build_attestation_json w.chars nonce).length < 1000 := by
  have hdigits : (Nat.toDigits 10 nonce.toNat).length ≤ 10 :=
    (Nat.length_toDigits_le_iff (by decide) (by decide)).mpr (Nat.lt_trans nonce.isLt (by decide))
  have hreport : reportText.length = 482 := by decide +kernel
  have hid : MINER_ID.length = 15 := rfl
  have hminer : "\x7b\"miner\":\"".toList.length = 10 := rfl
  have hminer_id : "\",\"miner_id\":\"".toList.length = 14 := rfl
  have hnonce : "\",\"nonce\":".toList.length = 10 := rfl
  unfold build_attestation_json
  simp only [List.length_append, hreport, hid, hminer, hminer_id, hnonce, w.length]
  omega

/-- What is behind `Host:` with TLS and without. -/
def hostText : (tls : Bool) → CStr
  | true => NODE_HOST
  | false => plainHost

theorem no_nul_submit_path : NUL ∉ "/attest/submit".toList := by decide

def SUBMIT_PATH : CString := ⟨"/attest/submit".toList, no_nul_submit_path⟩

theorem length_hostText (tls : Bool) : (hostText tls).length < 100 := by
  cases tls <;> decide

theorem length_requestText (tls : Bool) {json_body : CStr} (hbody : json_body.length < 1000) :
    (requestText (hostText tls) SUBMIT_PATH.chars json_body).length < BUFFER_SIZE := by
  have hdigits : (Nat.toDigits 10 json_body.length).length ≤ 4 :=
    (Nat.length_toDigits_le_iff (by decide) (by decide)).mpr (Nat.lt_trans hbody (by decide))
  have hhost := length_hostText tls
  have hpath : SUBMIT_PATH.chars.length = 14 := rfl
  have hsize : BUFFER_SIZE = 4096 := rfl
  have hpost : "POST ".toList.length = 5 := rfl
  have hversion : " HTTP/1.0\r\nHost: ".toList.length = 17 := rfl
  have htype : "\r\nContent-Type: application/json\r\nContent-Length: ".toList.length = 50 := rfl
  have hend : "\r\nConnection: close\r\n\r\n".toList.length = 23 := rfl
  unfold requestText
  simp only [List.length_append, hpath, hpost, hversion, htype, hend]
  omega

/-- A byte other than NUL. -/
def isByte (c : Char) : Bool := 0 < c.toNat && c.toNat < 256

def Bytes (cs : CStr) : Prop := cs.all isByte = true

instance (cs : CStr) : Decidable (Bytes cs) := inferInstanceAs (Decidable (_ = _))

theorem Bytes.append {a b : CStr} (ha : Bytes a) (hb : Bytes b) : Bytes (a ++ b) := by
  rw [Bytes, List.all_append, ha, hb]
  rfl

theorem bytes_digits (n : ℕ) : Bytes (Nat.toDigits 10 n) := by
  refine List.all_eq_true.mpr fun c hc => ?_
  obtain ⟨hlow, hhigh⟩ := Char.isDigit_iff_toNat.mp (Nat.isDigit_of_mem_toDigits (by decide) (by decide) hc)
  have hzero : '0'.toNat = 48 := rfl
  have hnine : '9'.toNat = 57 := rfl
  simp only [isByte, Bool.and_eq_true, decide_eq_true_eq]
  omega

theorem bytes_json (w : Wallet) (nonce : BitVec 32) : Bytes (build_attestation_json w.chars nonce) := by
  have hhex : ∀ c ∈ hex, isByte c = true := List.all_eq_true.mp (by decide)
  have hwallet : Bytes w.chars := List.all_eq_true.mpr fun c hc => hhex c (w.digits c hc)
  have hreport : Bytes reportText := by decide +kernel
  have hid : Bytes MINER_ID := by decide
  exact .append (by decide) (.append hwallet (.append (by decide) (.append hid (.append (by decide)
    (.append (bytes_digits _) hreport)))))

theorem no_nul {cs : CStr} (h : Bytes cs) : NUL ∉ cs := by
  intro hmem
  exact absurd (List.all_eq_true.mp h NUL hmem) (by decide)

/-- The request that submit_attestation makes. -/
def submission (tls : Bool) (w : Wallet) (nonce : BitVec 32) : Post (hostText tls) where
  path := SUBMIT_PATH
  json_body := ⟨build_attestation_json w.chars nonce, no_nul (bytes_json w nonce)⟩
  fits := length_requestText tls (length_json w nonce)

theorem ofBytes_request {cs : CStr} (h : Bytes cs) : ofBytes (cs.map fun c => UInt8.ofNat c.toNat) = cs := by
  rw [ofBytes, List.map_map]
  refine (List.map_congr_left fun c hc => ?_).trans (List.map_id cs)
  have hbyte := List.all_eq_true.mp h c hc
  simp only [isByte, Bool.and_eq_true, decide_eq_true_eq] at hbyte
  have hback : (UInt8.ofNat c.toNat).toNat = c.toNat := UInt8.toNat_ofNat_of_lt' hbyte.2
  rw [Function.comp_apply, hback, Char.ofNat_toNat]
  rfl

theorem bytes_requestText (tls : Bool) {json_body : CStr} (hbody : Bytes json_body) :
    Bytes (requestText (hostText tls) SUBMIT_PATH.chars json_body) := by
  have hhost : Bytes (hostText tls) := by cases tls <;> decide
  exact .append (.append (.append (.append (.append (.append (.append (by decide) (by decide)) (by decide)) hhost)
    (by decide)) (bytes_digits _)) (by decide)) hbody

/-- What a server is to make of the request. -/
def received (host json_body : CStr) : Http.Request where
  method := "POST".toList
  path := "/attest/submit".toList
  version := "HTTP/1.0".toList
  fields := [("Host".toList, host), ("Content-Type".toList, "application/json".toList),
    ("Content-Length".toList, Nat.toDigits 10 json_body.length), ("Connection".toList, "close".toList)]
  body := json_body

theorem render_received (host json_body : CStr) :
    (received host json_body).render = requestText host SUBMIT_PATH.chars json_body := by
  have hpost : "POST ".toList = "POST".toList ++ [' '] := by decide
  have hversion : " HTTP/1.0\r\nHost: ".toList =
      ' ' :: ("HTTP/1.0".toList ++ (Http.crlf ++ ("Host".toList ++ [':', ' ']))) := by decide
  have htype : "\r\nContent-Type: application/json\r\nContent-Length: ".toList =
      Http.crlf ++ ("Content-Type".toList ++ ':' :: ' ' :: ("application/json".toList ++
        (Http.crlf ++ ("Content-Length".toList ++ [':', ' '])))) := by decide
  have hend : "\r\nConnection: close\r\n\r\n".toList =
      Http.crlf ++ ("Connection".toList ++ ':' :: ' ' :: ("close".toList ++ (Http.crlf ++ Http.crlf))) := by decide
  unfold Http.Request.render requestText received SUBMIT_PATH
  simp only [hpost, hversion, htype, hend]
  simp only [Http.renderField, List.flatMap_cons, List.flatMap_nil, List.append_assoc, List.cons_append,
    List.nil_append]

theorem no_return {cs : CStr} (h : ∀ c ∈ cs, c.isDigit = true) : '\r' ∉ cs := by
  intro hmem
  exact absurd (h '\r' hmem) (by decide)

theorem received_sound (tls : Bool) (json_body : CStr) : (received (hostText tls) json_body).Sound where
  method := (by decide : ' ' ∉ "POST".toList ∧ '\r' ∉ "POST".toList)
  path := (by decide : ' ' ∉ "/attest/submit".toList ∧ '\r' ∉ "/attest/submit".toList)
  version := (by decide : '\r' ∉ "HTTP/1.0".toList)
  fields := by
    have hhost : '\r' ∉ hostText tls := by cases tls <;> decide
    have hdigits : '\r' ∉ Nat.toDigits 10 json_body.length :=
      no_return fun c hc => Nat.isDigit_of_mem_toDigits (by decide) (by decide) hc
    intro f hf
    simp only [received, List.mem_cons, List.not_mem_nil, or_false] at hf
    rcases hf with rfl | rfl | rfl | rfl
    · exact ⟨(by decide : ':' ∉ "Host".toList), (by decide : '\r' ∉ "Host".toList), hhost⟩
    · exact ⟨by decide, by decide, by decide⟩
    · exact ⟨(by decide : ':' ∉ "Content-Length".toList), (by decide : '\r' ∉ "Content-Length".toList), hdigits⟩
    · exact ⟨by decide, by decide, by decide⟩
  length := rfl

theorem read_submission (tls : Bool) (w : Wallet) (nonce : BitVec 32) (rest : CStr) :
    Http.read (ofBytes (submission tls w nonce).request ++ rest) =
      some (received (hostText tls) (build_attestation_json w.chars nonce), rest) := by
  have hrequest : ofBytes (submission tls w nonce).request =
      (received (hostText tls) (build_attestation_json w.chars nonce)).render := by
    rw [render_received]
    exact ofBytes_request (bytes_requestText tls (bytes_json w nonce))
  rw [hrequest]
  exact Http.read_render (received_sound tls _) rest

theorem parse_json (w : Wallet) (nonce : BitVec 32) :
    Json.parse (build_attestation_json w.chars nonce) = some (attested w.chars nonce) := by
  rw [← render_attested, Json.parse_render]

/-- Of what http_post sends a server reads the request and leaves what is behind it; the body is the attestation, and
    it fits into the buffer of submit_attestation. -/
theorem attestation_read (tls : Bool) (w : Wallet) (nonce : BitVec 32) (rest : CStr) :
    ∃ body : CStr, body.length < 2048 ∧ Json.parse body = some (attested w.chars nonce) ∧
      Http.read (ofBytes (submission tls w nonce).request ++ rest) = some (received (hostText tls) body, rest) :=
  ⟨build_attestation_json w.chars nonce, Nat.lt_trans (length_json w nonce) (by decide), parse_json w nonce,
    read_submission tls w nonce rest⟩

end Posix9.Miner
