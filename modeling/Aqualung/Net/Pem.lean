/-
# Certificates and keys from files

Both programs are given their certificates and keys as PEM files, and read them with the same
functions: `load_certs`, `load_key` and `load_roots`.  The file system and the parsers are
parameters.  What the functions promise is that a list of certificates is never empty, which is
why the first of them can be taken, and that an error is about the file it names.

Success and failure are characterised apart.  A list of certificates is collected up to the first
that cannot be read, and a root store is filled up to the first that it refuses, so success means
ALL of them, and a failure names a first one (`collectResults_eq_ok_iff`, `collectResults_eq_error`,
`addRoots_eq_ok_iff`, each by induction on the certificates).
-/
import Aqualung.Wire.Frame

namespace Aqualung

/-! ## 1. The code -/

/-- A certificate, as its DER encoding. -/
abbrev Cert := Bytes

/-- The file system, `rustls_pemfile`, and the root store of `rustls`. -/
structure PemStd where
  Path : Type
  File : Type
  Key : Type
  IoError : Type
  Roots : Type
  openFile : Path → Except IoError File
  /-- `rustls_pemfile::certs`: the certificates of a file, or what goes wrong at one of them. -/
  certs : File → List (Except IoError Cert)
  /-- `rustls_pemfile::private_key`. -/
  privateKey : File → Except IoError (Option Key)
  emptyRoots : Roots
  /-- `RootCertStore::add`. -/
  addRoot : Roots → Cert → Option Roots

/-- What `ConfigError` says of a file. -/
inductive PemError (std : PemStd)
  | readPem (flag : String) (path : std.Path) (source : std.IoError)
  | noCertificates (flag : String) (path : std.Path)
  | noPrivateKey (path : std.Path)
  | invalidCa (path : std.Path)

section

variable (std : PemStd)

def reader (path : std.Path) (flag : String) : Except (PemError std) std.File :=
  match std.openFile path with
  | .ok file => .ok file
  | .error source => .error (.readPem flag path source)

/-- `Iterator::collect` into a `Result`: the first error, or all the values. -/
def collectResults {ε α : Type} : List (Except ε α) → Except ε (List α)
  | [] => .ok []
  | .error e :: _ => .error e
  | .ok a :: rest => (collectResults rest).map (a :: ·)

def loadCerts (path : std.Path) (flag : String) :
    Except (PemError std) { certs : List Cert // certs ≠ [] } :=
  (reader std path flag).bind fun file =>
    match collectResults (std.certs file) with
    | .error source => .error (.readPem flag path source)
    | .ok certs =>
      if h : certs = [] then .error (.noCertificates flag path) else .ok ⟨certs, h⟩

def loadKey (path : std.Path) : Except (PemError std) std.Key :=
  (reader std path "--key").bind fun file =>
    match std.privateKey file with
    | .error source => .error (.readPem "--key" path source)
    | .ok (some key) => .ok key
    | .ok none => .error (.noPrivateKey path)

/-- The loop of `load_roots`. -/
def addRoots (path : std.Path) : std.Roots → List Cert → Except (PemError std) std.Roots
  | roots, [] => .ok roots
  | roots, cert :: certs =>
    match std.addRoot roots cert with
    | some roots => addRoots path roots certs
    | none => .error (.invalidCa path)

def loadRoots (path : std.Path) : Except (PemError std) std.Roots :=
  (loadCerts std path "--ca").bind fun certs => addRoots std path std.emptyRoots certs

end

variable {std : PemStd}

/-! ## 2. What is loaded -/

/-- The certificates of the file at a path. -/
def HasCerts (std : PemStd) (path : std.Path) (certs : List Cert) : Prop :=
  ∃ file, std.openFile path = .ok file ∧ std.certs file = certs.map .ok

/-- The private key of the file at a path. -/
def HasKey (std : PemStd) (path : std.Path) (key : std.Key) : Prop :=
  ∃ file, std.openFile path = .ok file ∧ std.privateKey file = .ok (some key)

/-- The root store of certificates that can all be added to it. -/
def rootStore (std : PemStd) (certs : List Cert) : Option std.Roots :=
  certs.foldlM std.addRoot std.emptyRoots

theorem reader_eq_ok_iff {path : std.Path} {flag : String} {file : std.File} :
    reader std path flag = .ok file ↔ std.openFile path = .ok file := by
  unfold reader
  cases std.openFile path <;> simp

theorem collectResults_eq_ok_iff {ε α : Type} {rs : List (Except ε α)} {as : List α} :
    collectResults rs = .ok as ↔ rs = as.map .ok := by
  induction rs generalizing as with
  | nil =>
    cases as with
    | nil => simp [collectResults]
    | cons a as => simp [collectResults]
  | cons r rs ih =>
    cases r with
    | error e => cases as <;> simp [collectResults]
    | ok a =>
      cases as with
      | nil =>
        cases h : collectResults rs <;> simp [collectResults, h, Except.map]
      | cons a' as =>
        have hrest := @ih as
        cases h : collectResults rs with
        | error e =>
          rw [h] at hrest
          simp [collectResults, h, Except.map, ← hrest]
        | ok as' =>
          rw [h] at hrest
          simp [collectResults, h, Except.map, ← hrest]

theorem collectResults_eq_error {ε α : Type} {rs : List (Except ε α)} {e : ε}
    (h : collectResults rs = .error e) : ∃ as post, rs = List.map .ok as ++ .error e :: post := by
  induction rs with
  | nil => cases h
  | cons r rs ih =>
    cases r with
    | error e' =>
      cases h
      exact ⟨[], rs, rfl⟩
    | ok a =>
      cases hrest : collectResults rs with
      | error e' =>
        rw [collectResults, hrest] at h
        cases h
        obtain ⟨as, post, rfl⟩ := ih hrest
        exact ⟨a :: as, post, rfl⟩
      | ok as =>
        rw [collectResults, hrest] at h
        cases h

/-- **`load_certs` loads the certificates of the file.** -/
theorem loadCerts_eq_ok_iff {path : std.Path} {flag : String}
    {certs : { certs : List Cert // certs ≠ [] }} :
    loadCerts std path flag = .ok certs ↔ HasCerts std path certs := by
  obtain ⟨certs, hne⟩ := certs
  unfold loadCerts HasCerts
  constructor
  · intro h
    cases hfile : reader std path flag with
    | error e =>
      rw [hfile] at h
      cases h
    | ok file =>
      rw [hfile] at h
      refine ⟨file, reader_eq_ok_iff.mp hfile, collectResults_eq_ok_iff.mp ?_⟩
      cases hcerts : collectResults (std.certs file) with
      | error source => simp [Except.bind, hcerts] at h
      | ok certs' =>
        simp only [Except.bind, hcerts] at h
        split at h
        · cases h
        · cases h
          rfl
  · rintro ⟨file, hfile, hcerts⟩
    rw [reader_eq_ok_iff.mpr hfile]
    simp only [Except.bind, collectResults_eq_ok_iff.mpr hcerts, dif_neg hne]

/-- **`load_key` loads the private key of the file.** -/
theorem loadKey_eq_ok_iff {path : std.Path} {key : std.Key} :
    loadKey std path = .ok key ↔ HasKey std path key := by
  unfold loadKey HasKey
  constructor
  · intro h
    cases hfile : reader std path "--key" with
    | error e =>
      rw [hfile] at h
      cases h
    | ok file =>
      rw [hfile] at h
      refine ⟨file, reader_eq_ok_iff.mp hfile, ?_⟩
      cases hkey : std.privateKey file with
      | error source => simp [Except.bind, hkey] at h
      | ok key' => cases key' <;> simp_all [Except.bind]
  · rintro ⟨file, hfile, hkey⟩
    rw [reader_eq_ok_iff.mpr hfile]
    simp only [Except.bind, hkey]

theorem addRoots_eq_ok_iff {path : std.Path} {roots roots' : std.Roots} {certs : List Cert} :
    addRoots std path roots certs = .ok roots' ↔
      certs.foldlM std.addRoot roots = some roots' := by
  induction certs generalizing roots with
  | nil => simp [addRoots]
  | cons cert certs ih =>
    rw [addRoots, List.foldlM_cons]
    cases std.addRoot roots cert with
    | none => simp
    | some roots => simpa using ih

/-- **`load_roots` loads the root store of the certificates of the file.** -/
theorem loadRoots_eq_ok_iff {path : std.Path} {roots : std.Roots} :
    loadRoots std path = .ok roots ↔
      ∃ certs, certs ≠ [] ∧ HasCerts std path certs ∧ rootStore std certs = some roots := by
  unfold loadRoots
  constructor
  · intro h
    cases hcerts : loadCerts std path "--ca" with
    | error e =>
      rw [hcerts] at h
      cases h
    | ok certs =>
      rw [hcerts] at h
      exact ⟨certs, certs.2, loadCerts_eq_ok_iff.mp hcerts, addRoots_eq_ok_iff.mp h⟩
  · rintro ⟨certs, hne, hcerts, hroots⟩
    have hload : loadCerts std path "--ca" = .ok ⟨certs, hne⟩ := loadCerts_eq_ok_iff.mpr hcerts
    rw [hload]
    exact addRoots_eq_ok_iff.mpr hroots

/-! ## 3. What is wrong -/

/-- What the error says of the file is so. -/
def PemError.Holds : PemError std → Prop
  | readPem flag path source =>
    std.openFile path = .error source ∨ ∃ file, std.openFile path = .ok file ∧
      if flag = "--key" then std.privateKey file = .error source
      else ∃ certs post, std.certs file = List.map .ok certs ++ .error source :: post
  | noCertificates _ path => HasCerts std path []
  | noPrivateKey path => ∃ file, std.openFile path = .ok file ∧ std.privateKey file = .ok none
  | invalidCa path => ∃ certs, HasCerts std path certs ∧ rootStore std certs = none

/-- The flag and the path of the error. -/
def PemError.About (flag : String) (path : std.Path) : PemError std → Prop
  | readPem flag' path' _ | noCertificates flag' path' => flag' = flag ∧ path' = path
  | noPrivateKey path' => flag = "--key" ∧ path' = path
  | invalidCa path' => flag = "--ca" ∧ path' = path

theorem reader_error {path : std.Path} {flag : String} {e : PemError std}
    (h : reader std path flag = .error e) : e.Holds ∧ e.About flag path := by
  unfold reader at h
  cases hfile : std.openFile path with
  | ok file =>
    rw [hfile] at h
    cases h
  | error source =>
    rw [hfile] at h
    cases h
    exact ⟨.inl hfile, rfl, rfl⟩

theorem loadCerts_error {path : std.Path} {flag : String} {e : PemError std}
    (hflag : flag ≠ "--key") (h : loadCerts std path flag = .error e) : e.Holds ∧ e.About flag path := by
  unfold loadCerts at h
  cases hfile : reader std path flag with
  | error e' =>
    rw [hfile] at h
    cases h
    exact reader_error hfile
  | ok file =>
    have hopen := reader_eq_ok_iff.mp hfile
    rw [hfile] at h
    simp only [Except.bind] at h
    cases hcerts : collectResults (std.certs file) with
    | error source =>
      simp only [hcerts] at h
      cases h
      refine ⟨.inr ⟨file, hopen, ?_⟩, rfl, rfl⟩
      rw [if_neg hflag]
      exact collectResults_eq_error hcerts
    | ok certs =>
      simp only [hcerts] at h
      split at h
      · rename_i hnil
        subst hnil
        cases h
        exact ⟨⟨file, hopen, collectResults_eq_ok_iff.mp hcerts⟩, rfl, rfl⟩
      · cases h

theorem loadKey_error {path : std.Path} {e : PemError std} (h : loadKey std path = .error e) :
    e.Holds ∧ e.About "--key" path := by
  unfold loadKey at h
  cases hfile : reader std path "--key" with
  | error e' =>
    rw [hfile] at h
    cases h
    exact reader_error hfile
  | ok file =>
    have hopen := reader_eq_ok_iff.mp hfile
    rw [hfile] at h
    simp only [Except.bind] at h
    cases hkey : std.privateKey file with
    | error source =>
      simp only [hkey] at h
      cases h
      refine ⟨.inr ⟨file, hopen, ?_⟩, rfl, rfl⟩
      rw [if_pos rfl]
      exact hkey
    | ok key =>
      cases key with
      | some key =>
        simp only [hkey] at h
        cases h
      | none =>
        simp only [hkey] at h
        cases h
        exact ⟨⟨file, hopen, hkey⟩, rfl, rfl⟩

theorem loadRoots_error {path : std.Path} {e : PemError std} (h : loadRoots std path = .error e) :
    e.Holds ∧ e.About "--ca" path := by
  unfold loadRoots at h
  cases hcerts : loadCerts std path "--ca" with
  | error e' =>
    rw [hcerts] at h
    cases h
    exact loadCerts_error (by decide) hcerts
  | ok certs =>
    rw [hcerts] at h
    have hinvalid : ∀ {certs : List Cert} {roots : std.Roots},
        addRoots std path roots certs = .error e →
        e = .invalidCa path ∧ certs.foldlM std.addRoot roots = none := by
      intro certs
      induction certs with
      | nil => intro roots h; cases h
      | cons cert certs ih =>
        intro roots h
        rw [addRoots] at h
        rw [List.foldlM_cons]
        cases hadd : std.addRoot roots cert with
        | none =>
          simp only [hadd] at h
          cases h
          exact ⟨rfl, rfl⟩
        | some roots' =>
          simp only [hadd] at h
          exact ih h
    obtain ⟨rfl, hnone⟩ := hinvalid h
    exact ⟨⟨certs, loadCerts_eq_ok_iff.mp hcerts, hnone⟩, rfl, rfl⟩

end Aqualung
