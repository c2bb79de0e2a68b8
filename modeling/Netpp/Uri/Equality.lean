import Netpp.Uri.Components
import Netpp.Uri.Encoding

/-!
# Equality

`operator==` takes all URIs without a host for equal. It decodes the components of the other
ones in turn up to the first difference, and decoding throws on a malformed escape.
-/

namespace Netpp

open Text (ascii)

namespace Uri

open InnerParseOut UriCodec

/-- `||`, which evaluates its second operand only if the first one is false. -/
def orElse (first second : Except UriException Bool) : Except UriException Bool := do
  if ← first then return true else second

/-- `!=` on decoded components. -/
def differ (component other : List UInt8) : Except UriException Bool := do
  let decoded ← decode component
  let decodedOther ← decode other
  return decoded != decodedOther

/-- The condition under which `operator==` is false, if one of the URIs has a host. -/
def differences (u other : Uri) : Except UriException Bool :=
  orElse (.ok (u.isEmpty || other.isEmpty)) <|
  orElse (.ok (u.scheme != other.scheme)) <|
  orElse (differ u.userInfo other.userInfo) <|
  orElse (differ u.host other.host) <|
  orElse (.ok (u.port != other.port)) <|
  orElse (differ u.path other.path) <|
  orElse (differ u.query other.query) <|
  differ u.fragment other.fragment

def operatorEq (u other : Uri) : Except UriException Bool :=
  if u.isEmpty && other.isEmpty then return true
  else do
    let different ← u.differences other
    return !different

variable {u v : Uri} {a b s t : List UInt8} {e : Except UriException Bool} {P : Prop}

/-! ## Comparisons -/

/-- The components are decoded to the same bytes. -/
def Alike (a b : List UInt8) : Prop := ∃ raw, decode a = .ok raw ∧ decode b = .ok raw

/-- Both components can be decoded. -/
def Decodable (a b : List UInt8) : Prop := ¬Malformed a ∧ ¬Malformed b

/-- The comparisons do not throw, and they find no difference exactly if `P` holds. -/
def Decides (e : Except UriException Bool) (P : Prop) : Prop :=
  ∃ different, e = .ok different ∧ (different = false ↔ P)

theorem exists_of_decodable (h : Decodable a b) :
    ∃ raw raw', decode a = .ok raw ∧ decode b = .ok raw' ∧ (Alike a b ↔ raw = raw') ∧
      differ a b = .ok (raw != raw') := by
  obtain ⟨raw, ha⟩ := (decode_eq_ok_iff a).mpr h.1
  obtain ⟨raw', hb⟩ := (decode_eq_ok_iff b).mpr h.2
  refine ⟨raw, raw', ha, hb, ?_, by rw [differ, ha, hb]; rfl⟩
  rw [Alike, ha, hb]
  constructor
  · rintro ⟨x, hx, hx'⟩
    rw [Except.ok.inj hx, Except.ok.inj hx']
  · rintro rfl
    exact ⟨raw, rfl, rfl⟩

/-- A comparison throws if one of the components cannot be decoded. -/
theorem differ_eq_error (h : ¬Decodable a b) : ∃ exception, differ a b = .error exception := by
  rcases not_and_or.mp h with h | h
  · obtain ⟨exception, ha⟩ := (decode_eq_error_iff a).mpr (not_not.mp h)
    exact ⟨exception, by rw [differ, ha]; rfl⟩
  · obtain ⟨exception, hb⟩ := (decode_eq_error_iff b).mpr (not_not.mp h)
    rw [differ, hb]
    cases decode a with
    | error exception' => exact ⟨exception', rfl⟩
    | ok raw => exact ⟨exception, rfl⟩

theorem not_decides_error (exception : UriException) : ¬Decides (.error exception) P := by
  rintro ⟨different, hdifferent, -⟩
  cases hdifferent

theorem decides_differ : Decides (differ a b) (Alike a b) ↔ Decodable a b := by
  by_cases h : Decodable a b
  · obtain ⟨raw, raw', -, -, halike, hdiffer⟩ := exists_of_decodable h
    refine iff_of_true ⟨raw != raw', hdiffer, ?_⟩ h
    rw [halike, bne_eq_false_iff_eq]
  · obtain ⟨exception, hdiffer⟩ := differ_eq_error h
    rw [hdiffer]
    exact iff_of_false (not_decides_error exception) h

/-- After a difference nothing else is compared. -/
theorem decides_orElse_ok {different : Bool} :
    Decides (orElse (.ok different) e) (different = false ∧ P) ↔
      (different = false → Decides e P) := by
  cases different with
  | true =>
      refine iff_of_true ⟨true, rfl, ?_⟩ nofun
      simp
  | false =>
      have hsame : (false = false ∧ P) ↔ P := and_iff_right rfl
      rw [hsame]
      exact ⟨fun h _ => h, fun h => h rfl⟩

theorem decides_orElse_differ : Decides (orElse (differ a b) e) (Alike a b ∧ P) ↔
    Decodable a b ∧ (Alike a b → Decides e P) := by
  by_cases h : Decodable a b
  · obtain ⟨raw, raw', -, -, halike, hdiffer⟩ := exists_of_decodable h
    have hsame : Alike a b ↔ (raw != raw') = false := by rw [halike, bne_eq_false_iff_eq]
    rw [hdiffer, hsame, decides_orElse_ok, and_iff_right h]
  · obtain ⟨exception, hdiffer⟩ := differ_eq_error h
    rw [hdiffer]
    exact iff_of_false (not_decides_error exception) fun hboth => h hboth.1

/-! ## URIs -/

/-- The schemes and the ports are equal, and the other components when they are decoded. -/
def SameDecoded (u v : Uri) : Prop :=
  u.scheme = v.scheme ∧ Alike u.userInfo v.userInfo ∧ Alike u.host v.host ∧ u.port = v.port ∧
    Alike u.path v.path ∧ Alike u.query v.query ∧ Alike u.fragment v.fragment

/-- There is no malformed escape before the first difference. -/
def NoMalformedReached (u v : Uri) : Prop :=
  u.scheme = v.scheme →
    Decodable u.userInfo v.userInfo ∧ (Alike u.userInfo v.userInfo →
      Decodable u.host v.host ∧ (Alike u.host v.host → u.port = v.port →
        Decodable u.path v.path ∧ (Alike u.path v.path →
          Decodable u.query v.query ∧ (Alike u.query v.query →
            Decodable u.fragment v.fragment))))

/-- `operator==` does not throw, and is true exactly for URIs that are the same when they are
decoded. -/
def SoundEq (u v : Uri) : Prop :=
  ∃ same, u.operatorEq v = .ok same ∧ (same = true ↔ SameDecoded u v)

theorem isEmpty_iff (h : new s = .ok u) : u.isEmpty = true ↔ u.host = [] := by
  rw [isEmpty, Bool.or_eq_true, decide_eq_true_iff, decide_eq_true_iff]
  refine or_iff_left fun hslash => ?_
  have hchars := isAuthorityCharacter_host h
  rw [hslash] at hchars
  exact absurd (hchars 47 (by decide)) (by decide)

/-- A host that is missing is not decoded to one that is there. -/
theorem not_alike_of_nil (hne : b ≠ []) : ¬Alike [] b ∧ ¬Alike b [] := by
  constructor
  · rintro ⟨raw, hnil, hb⟩
    cases hnil
    exact decode_ne_nil hne hb
  · rintro ⟨raw, hb, hnil⟩
    cases hnil
    exact decode_ne_nil hne hb

theorem soundEq_iff_decides (h : (u.isEmpty && v.isEmpty) = false) :
    SoundEq u v ↔ Decides (u.differences v) (SameDecoded u v) := by
  rw [SoundEq, operatorEq, h, if_neg Bool.false_ne_true]
  cases u.differences v with
  | error exception =>
      refine iff_of_false ?_ (not_decides_error exception)
      rintro ⟨same, hsame, -⟩
      cases hsame
  | ok different =>
      constructor
      · rintro ⟨same, hsame, hiff⟩
        cases hsame
        exact ⟨different, rfl, by rw [← Bool.not_eq_true']; exact hiff⟩
      · rintro ⟨different', hdifferent, hiff⟩
        cases hdifferent
        exact ⟨!different, rfl, by rw [Bool.not_eq_true']; exact hiff⟩

theorem decides_of_hosts (hu : u.isEmpty = false) (hv : v.isEmpty = false) :
    SoundEq u v ↔ NoMalformedReached u v := by
  have hport : (u.port != v.port) = false ↔ u.port = v.port := bne_eq_false_iff_eq
  have hscheme : (u.scheme != v.scheme) = false ↔ u.scheme = v.scheme := bne_eq_false_iff_eq
  have hempty : (u.isEmpty || v.isEmpty) = false := by rw [hu, hv, Bool.or_false]
  have hsame : SameDecoded u v ↔ (u.isEmpty || v.isEmpty) = false ∧
      (u.scheme != v.scheme) = false ∧ Alike u.userInfo v.userInfo ∧ Alike u.host v.host ∧
        (u.port != v.port) = false ∧ Alike u.path v.path ∧ Alike u.query v.query ∧
          Alike u.fragment v.fragment := by
    rw [hport, hscheme]
    exact (and_iff_right hempty).symm
  rw [soundEq_iff_decides (by rw [hu, Bool.false_and]), hsame, differences, decides_orElse_ok,
    decides_orElse_ok, decides_orElse_differ, decides_orElse_differ, decides_orElse_ok,
    decides_orElse_differ, decides_orElse_differ, decides_differ, hport, hscheme]
  exact ⟨fun h => h hempty, fun h _ => h⟩

theorem operatorEq_of_one_empty (hor : (u.isEmpty || v.isEmpty) = true)
    (hand : (u.isEmpty && v.isEmpty) = false) : u.operatorEq v = .ok false := by
  rw [operatorEq, hand, differences, hor]
  rfl

/-- Equality is sound for accepted texts exactly if no malformed escape comes before the first
difference and, when both hosts are missing, nothing else differs either. -/
theorem operatorEq_sound_iff (hu : new s = .ok u) (hv : new t = .ok v) : SoundEq u v ↔
    (u.host = [] → v.host = [] → SameDecoded u v) ∧
      (u.host ≠ [] → v.host ≠ [] → NoMalformedReached u v) := by
  have huhost := isEmpty_iff hu
  have hvhost := isEmpty_iff hv
  cases huempty : u.isEmpty with
  | true =>
      have hunil := huhost.mp huempty
      cases hvempty : v.isEmpty with
      | true =>
          have hvnil := hvhost.mp hvempty
          have hequal : u.operatorEq v = .ok true := by
            rw [operatorEq, huempty, hvempty]
            rfl
          constructor
          · rintro ⟨same, hsame, hiff⟩
            rw [hequal] at hsame
            cases hsame
            exact ⟨fun _ _ => hiff.mp rfl, fun hne => absurd hunil hne⟩
          · exact fun h => ⟨true, hequal, iff_of_true rfl (h.1 hunil hvnil)⟩
      | false =>
          have hvne : v.host ≠ [] := fun hnil => by simp [hvhost.mpr hnil] at hvempty
          have hequal : u.operatorEq v = .ok false :=
            operatorEq_of_one_empty (by rw [huempty, hvempty]; rfl) (by rw [huempty, hvempty]; rfl)
          refine iff_of_true ⟨false, hequal, iff_of_false Bool.false_ne_true fun hsame => ?_⟩
            ⟨fun _ hnil => absurd hnil hvne, fun hne => absurd hunil hne⟩
          exact (not_alike_of_nil hvne).1 (hunil ▸ hsame.2.2.1)
  | false =>
      have hune : u.host ≠ [] := fun hnil => by simp [huhost.mpr hnil] at huempty
      cases hvempty : v.isEmpty with
      | true =>
          have hvnil := hvhost.mp hvempty
          have hequal : u.operatorEq v = .ok false :=
            operatorEq_of_one_empty (by rw [huempty, hvempty]; rfl) (by rw [huempty, hvempty]; rfl)
          refine iff_of_true ⟨false, hequal, iff_of_false Bool.false_ne_true fun hsame => ?_⟩
            ⟨fun hnil => absurd hnil hune, fun _ hne => absurd hvnil hne⟩
          exact (not_alike_of_nil hune).2 (hvnil ▸ hsame.2.2.1)
      | false =>
          have hvne : v.host ≠ [] := fun hnil => by simp [hvhost.mpr hnil] at hvempty
          rw [decides_of_hosts huempty hvempty]
          exact ⟨fun h => ⟨fun hnil => absurd hnil hune, fun _ _ => h⟩, fun h => h.2 hune hvne⟩

/-- Two texts that differ in an escape only. -/
theorem operatorEq_sound_iff_escape : ∃ u v, new (ascii "http://h/%61") = .ok u ∧
    new (ascii "http://h/a") = .ok v ∧ (SoundEq u v ↔
      (u.host = [] → v.host = [] → SameDecoded u v) ∧
        (u.host ≠ [] → v.host ≠ [] → NoMalformedReached u v)) :=
  ⟨_, _, rfl, rfl,
    operatorEq_sound_iff (s := ascii "http://h/%61") (t := ascii "http://h/a") rfl rfl⟩

/-- Two paths that differ. -/
theorem operatorEq_sound_fails : ∃ u v, new (ascii "/a") = .ok u ∧ new (ascii "/b") = .ok v ∧
    u.operatorEq v = .ok true ∧ u.path ≠ v.path ∧ ¬SoundEq u v := by
  refine ⟨_, _, rfl, rfl, rfl, by decide, ?_⟩
  rintro ⟨same, hsame, hiff⟩
  cases hsame
  obtain ⟨raw, ha, hb⟩ := (hiff.mp rfl).2.2.2.2.1
  cases ha
  exact absurd (Except.ok.inj hb) (by decide)

end Uri

end Netpp
