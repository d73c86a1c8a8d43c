import ParadiseOS.BootFrames
import ParadiseOS.VirtModel

/-!
# Frames for user programs

The rest of every region is for user programs. `user_frame_valid` compares a byte address
with the bounds of the regions, while a page-table entry takes the whole frame that the
address lies in, and the end of a region is a sum of words, which is 0 at 4 GiB.
-/

namespace ParadiseOS.UserFrames

open BootFrames BootModel BootTables MachineWord PagingChecks PagingModel PagingSteps TwoLevelPaging VirtModel

set_option autoImplicit false

section Statement

/-- The later kernel has the map at `user_physical_map`. -/
structure ShowsMap (machine : Machine) (userMap : List PhysicalMap) : Prop where
  length : machine.userPhysicalMapLen = userMap.length
  addr : ∀ i region, userMap[i]? = some region →
    loadWord machine (u32 (machine.userPhysicalMap + u32 (8 * i))) = .ok region.addr
  len : ∀ i region, userMap[i]? = some region →
    loadWord machine (u32 (machine.userPhysicalMap + u32 (8 * i) + 4)) = .ok region.len

/-- The frame lies inside one region. -/
def InsideRegion (userMap : List PhysicalMap) (frame : Nat) : Prop :=
  ∃ region ∈ userMap, region.addr ≤ frame ∧ frame + 4096 ≤ region.addr + region.len

/-- `user_frame_valid` accepts an address exactly if the frame that its entry takes lies inside
one region. -/
def ValidatesFrame (machine : Machine) (userMap : List PhysicalMap) (paddr : Nat) : Prop :=
  ∃ valid, userFrameValid machine paddr = .ok valid ∧
    (valid = true ↔ InsideRegion userMap (frameOf (createEntry paddr pteUserMode)))

def Contains (region : PhysicalMap) (paddr : Nat) : Prop :=
  region.addr ≤ paddr ∧ paddr < region.addr + region.len

/-- What the loop of `user_frame_valid` looks for: the end of a region is a sum of words. -/
def Admits (userMap : List PhysicalMap) (paddr : Nat) : Prop :=
  ∃ region ∈ userMap, region.addr ≤ paddr ∧ paddr < u32 (region.addr + region.len)

/-- The region ends where addresses end. -/
def ReachesTop (region : PhysicalMap) : Prop := region.addr + region.len = 4294967296

/-- A bound of the region is inside the page of the address, and not at its edge. -/
def CutsPage (region : PhysicalMap) (paddr : Nat) : Prop :=
  (region.addr % 4096 ≠ 0 ∧ region.addr / 4096 = paddr / 4096) ∨
    ((region.addr + region.len) % 4096 ≠ 0 ∧ (region.addr + region.len) / 4096 = paddr / 4096)

/-- The address is in a region below the top, but only in regions that cut its page. -/
def PartialFrame (userMap : List PhysicalMap) (paddr : Nat) : Prop :=
  (∃ region ∈ userMap, Contains region paddr ∧ ¬ ReachesTop region) ∧
    ∀ region ∈ userMap, Contains region paddr → CutsPage region paddr

/-- The address is in a region that does not cut its page, but only in regions up to the top. -/
def LostFrame (userMap : List PhysicalMap) (paddr : Nat) : Prop :=
  (∃ region ∈ userMap, Contains region paddr ∧ ¬ CutsPage region paddr) ∧
    ∀ region ∈ userMap, Contains region paddr → ReachesTop region

end Statement

section Regions

variable {image : Image} {machine next : Machine} {userMap later : List PhysicalMap}
  {entries : List MMapEntry} {region : PhysicalMap} {paddr : Nat}

/-- What `init_frames` notes for user programs. -/
def userRegion (entry : MMapEntry) : PhysicalMap :=
  ⟨u32 (entry.baseAddrLo + entry.lengthLo / kernelMemShareDiv),
    sub32 entry.lengthLo (entry.lengthLo / kernelMemShareDiv)⟩

theorem entries_map (entries : List MMapEntry)
    (completed : initEntries image machine userMap entries = .ok (later, next)) :
    later = userMap ++ (entries.filter fun entry => entry.Available).map userRegion := by
  induction entries generalizing machine userMap with
  | nil =>
      cases completed
      exact (List.append_nil _).symm
  | cons entry entries ih =>
      rw [init_entries_cons] at completed
      split_ifs at completed with accepted available room
      · obtain ⟨middle, _, completed⟩ := Trap.bind_eq_ok.mp completed
        rw [ih completed, List.filter_cons, if_pos (decide_eq_true available), List.map_cons,
          List.append_assoc]
        rfl
      · rw [ih completed, List.filter_cons, if_neg (by rwa [decide_eq_true_iff])]

/-- The regions are what the kernel leaves of the available entries, up to their ends. -/
theorem user_region_bounds {entry : MMapEntry} (word : entry.baseAddrLo < 4294967296)
    (fits : entry.baseAddrLo + entry.lengthLo ≤ 4294967296) :
    (userRegion entry).addr = kernelTo entry ∧
      (userRegion entry).addr + (userRegion entry).len = entry.baseAddrLo + entry.lengthLo := by
  have addr := (kernel_to_word word fits).1
  by_cases whole : entry.lengthLo = 4294967296
  · have base : entry.baseAddrLo = 0 := by omega
    refine ⟨addr, ?_⟩
    unfold userRegion sub32 kernelMemShareDiv u32
    rw [whole, base]
    rfl
  · have len : (userRegion entry).len = entry.lengthLo - entry.lengthLo / 5 :=
      sub32_of_le (Nat.div_le_self _ _) (by omega)
    rw [len]
    change u32 _ = _ ∧ u32 _ + _ = _
    rw [addr]
    unfold kernelTo
    omega

theorem built_region {info : MultibootInfo} (words : ∀ entry ∈ info.mmap, entry.baseAddrLo < 4294967296)
    (fits : ∀ entry ∈ info.mmap, entry.baseAddrLo + entry.lengthLo ≤ 4294967296)
    (completed : initFrames image machine info = .ok (userMap, next)) :
    ∀ region ∈ userMap, region.addr + region.len ≤ 4294967296 := by
  obtain ⟨_, _, completed⟩ := Trap.bind_eq_ok.mp completed
  rw [entries_map info.mmap completed, List.nil_append]
  intro region member
  obtain ⟨entry, listed, rfl⟩ := List.mem_map.1 member
  have inMap := (List.mem_filter.1 listed).1
  rw [(user_region_bounds (words entry inMap) (fits entry inMap)).2]
  exact fits entry inMap

/-- A region takes the frame of an address in it, unless it cuts its page. -/
theorem contains_frame_iff : (Contains region paddr ∧ ¬ CutsPage region paddr) ↔
    region.addr ≤ frameOf paddr ∧ frameOf paddr + 4096 ≤ region.addr + region.len := by
  unfold Contains CutsPage frameOf
  omega

/-- The loop of `user_frame_valid` finds a region whose end is above the address as a word. -/
theorem valid_from (rest : List PhysicalMap) {passed : List PhysicalMap}
    (shown : ShowsMap machine (passed ++ rest)) :
    ∃ valid, userFrameValidFrom machine paddr passed.length rest.length = .ok valid ∧
      (valid = true ↔ ∃ region ∈ rest, region.addr ≤ paddr ∧ paddr < u32 (region.addr + region.len)) := by
  induction rest generalizing passed with
  | nil =>
      refine ⟨false, rfl, fun wrong => absurd wrong Bool.false_ne_true, ?_⟩
      rintro ⟨region, member, _⟩
      exact absurd member List.not_mem_nil
  | cons region rest ih =>
      have here : (passed ++ region :: rest)[passed.length]? = some region := by
        rw [List.getElem?_append_right le_rfl, Nat.sub_self]
        rfl
      rw [List.length_cons, userFrameValidFrom, shown.addr _ region here, Trap.ok_bind,
        shown.len _ region here, Trap.ok_bind]
      dsimp only
      by_cases found : region.addr ≤ paddr ∧ paddr < u32 (region.addr + region.len)
      · rw [if_pos found]
        exact ⟨true, rfl, fun _ => ⟨region, List.mem_cons_self, found⟩, fun _ => rfl⟩
      · rw [if_neg found]
        have split : passed ++ region :: rest = (passed ++ [region]) ++ rest := by
          rw [List.append_assoc]
          rfl
        rw [split] at shown
        obtain ⟨valid, completed, iff⟩ := ih shown
        rw [List.length_append, List.length_singleton] at completed
        refine ⟨valid, completed, iff.trans ?_⟩
        rw [List.exists_mem_cons_iff]
        exact ⟨.inr, fun either => either.resolve_left found⟩

theorem user_frame_valid_admits (shown : ShowsMap machine userMap) :
    ∃ valid, userFrameValid machine paddr = .ok valid ∧ (valid = true ↔ Admits userMap paddr) := by
  obtain ⟨valid, completed, iff⟩ := @valid_from machine paddr userMap [] shown
  refine ⟨valid, ?_, iff⟩
  rw [userFrameValid, shown.length]
  exact completed

/-- Of regions inside the address space those are admitted that end below its top. -/
theorem admits_iff (fits : ∀ region ∈ userMap, region.addr + region.len ≤ 4294967296) :
    Admits userMap paddr ↔ ∃ region ∈ userMap, Contains region paddr ∧ ¬ ReachesTop region := by
  constructor
  · rintro ⟨region, member, low, high⟩
    have bound := fits region member
    refine ⟨region, member, ?_⟩
    unfold u32 at high
    unfold Contains ReachesTop
    omega
  · rintro ⟨region, member, inside, below⟩
    have bound := fits region member
    refine ⟨region, member, inside.1, ?_⟩
    unfold ReachesTop at below
    rw [u32_of_lt (by omega)]
    exact inside.2

theorem user_frame_valid_returns (shown : ShowsMap machine userMap)
    (fits : ∀ region ∈ userMap, region.addr + region.len ≤ 4294967296) :
    ∃ valid, userFrameValid machine paddr = .ok valid ∧
      (valid = true ↔ ∃ region ∈ userMap, Contains region paddr ∧ ¬ ReachesTop region) := by
  obtain ⟨valid, completed, iff⟩ := @user_frame_valid_admits machine userMap paddr shown
  exact ⟨valid, completed, iff.trans (admits_iff fits)⟩

theorem validates_iff {info : MultibootInfo} (words : ∀ entry ∈ info.mmap, entry.baseAddrLo < 4294967296)
    (fits : ∀ entry ∈ info.mmap, entry.baseAddrLo + entry.lengthLo ≤ 4294967296)
    (built : initFrames image machine info = .ok (userMap, next)) {running : Machine}
    (shown : ShowsMap running userMap) (word : paddr < 4294967296) :
    ValidatesFrame running userMap paddr ↔
      ((∃ region ∈ userMap, Contains region paddr ∧ ¬ ReachesTop region) ↔
        ∃ region ∈ userMap, Contains region paddr ∧ ¬ CutsPage region paddr) := by
  obtain ⟨valid, completed, accepts⟩ := @user_frame_valid_returns running userMap paddr shown
    (built_region words fits built)
  have inside : InsideRegion userMap (frameOf (createEntry paddr pteUserMode)) ↔
      ∃ region ∈ userMap, Contains region paddr ∧ ¬ CutsPage region paddr := by
    rw [create_entry_frame word (by decide)]
    unfold InsideRegion
    simp only [contains_frame_iff]
  rw [← accepts, ← inside]
  constructor
  · rintro ⟨other, again, right⟩
    rw [completed, Except.ok.injEq] at again
    exact again ▸ right
  · exact fun right => ⟨valid, completed, right⟩

/-- An address that the code accepts lies in a frame of a region. -/
theorem accepted_whole
    (right : (∃ region ∈ userMap, Contains region paddr ∧ ¬ ReachesTop region) ↔
      ∃ region ∈ userMap, Contains region paddr ∧ ¬ CutsPage region paddr) :
    ¬ PartialFrame userMap paddr := by
  rintro ⟨below, cuts⟩
  obtain ⟨region, member, contains, whole⟩ := right.1 below
  exact whole (cuts region member contains)

/-- `user_frame_valid` is right about an address exactly if it is in no partial frame and in none
that is lost at the top. -/
theorem user_frame_valid_iff {info : MultibootInfo}
    (words : ∀ entry ∈ info.mmap, entry.baseAddrLo < 4294967296)
    (fits : ∀ entry ∈ info.mmap, entry.baseAddrLo + entry.lengthLo ≤ 4294967296)
    (built : initFrames image machine info = .ok (userMap, next)) {running : Machine}
    (shown : ShowsMap running userMap) (word : paddr < 4294967296) :
    ValidatesFrame running userMap paddr ↔
      ¬ PartialFrame userMap paddr ∧ ¬ LostFrame userMap paddr := by
  rw [validates_iff words fits built shown word]
  constructor
  · intro right
    refine ⟨accepted_whole right, ?_⟩
    rintro ⟨whole, tops⟩
    obtain ⟨region, member, contains, below⟩ := right.2 (by simpa only [PartialFrame, LostFrame] using whole)
    exact below (tops region member contains)
  · rintro ⟨notPartial, notLost⟩
    constructor
    · intro below
      by_contra none
      refine notPartial ⟨below, fun region member contains => ?_⟩
      by_contra whole
      exact none ⟨region, member, contains, whole⟩
    · intro whole
      by_contra none
      refine notLost ⟨whole, fun region member contains => ?_⟩
      by_contra below
      exact none ⟨region, member, contains, below⟩

/-- Where all regions are whole pages below the top, every address is judged right. -/
theorem page_regions_right
    (pages : ∀ region ∈ userMap, region.addr % 4096 = 0 ∧ (region.addr + region.len) % 4096 = 0)
    (below : ∀ region ∈ userMap, ¬ ReachesTop region) (paddr : Nat) :
    ¬ PartialFrame userMap paddr ∧ ¬ LostFrame userMap paddr := by
  constructor
  · rintro ⟨⟨region, member, contains, _⟩, cuts⟩
    have aligned := pages region member
    rcases cuts region member contains with low | high
    · exact low.1 aligned.1
    · exact high.1 aligned.2
  · rintro ⟨⟨region, member, contains, _⟩, tops⟩
    exact below region member (tops region member contains)

end Regions

section Sample

/-- The sample machine with one region as its map. -/
def mapMachine (region : PhysicalMap) : Machine :=
  { sampleMachine with
    memory := writeWord (writeWord sampleMachine.memory 0x18000 region.addr) 0x18004 region.len }

/-- The map page is in the window of the user's read-only heap. -/
def mapChecks (region : PhysicalMap) : Bool :=
  returnsWith (loadWord (mapMachine region) 0xFF800000) (· = region.addr) = true ∧
    returnsWith (loadWord (mapMachine region) 0xFF800004) (· = region.len) = true

theorem map_machine_shows {region : PhysicalMap} (passed : mapChecks region = true) :
    ShowsMap (mapMachine region) [region] := by
  obtain ⟨addr, len⟩ := of_decide_eq_true passed
  obtain ⟨word, loaded, isWord⟩ := returns_with_iff.1 addr
  obtain ⟨second, loadedLen, isLen⟩ := returns_with_iff.1 len
  rw [of_decide_eq_true isWord] at loaded
  rw [of_decide_eq_true isLen] at loadedLen
  have only : ∀ i other, [region][i]? = some other → i = 0 ∧ other = region := by
    intro i other found
    cases i with
    | zero =>
        cases found
        exact ⟨rfl, rfl⟩
    | succ i => cases found
  refine ⟨rfl, ?_, ?_⟩
  · intro i other found
    obtain ⟨rfl, rfl⟩ := only i other found
    have place : u32 (0xFF800000 + u32 (8 * 0)) = 0xFF800000 := by decide
    change loadWord _ (u32 (0xFF800000 + u32 (8 * 0))) = _
    rw [place]
    exact loaded
  · intro i other found
    obtain ⟨rfl, rfl⟩ := only i other found
    have place : u32 (0xFF800000 + u32 (8 * 0) + 4) = 0xFF800004 := by decide
    change loadWord _ (u32 (0xFF800000 + u32 (8 * 0) + 4)) = _
    rw [place]
    exact loadedLen

/-- A machine with the memory boots, and a later kernel has its map. -/
theorem one_region_shown (entry : MMapEntry) (accepted : Accepted entry) (available : entry.Available)
    (sound : SoundMap [entry]) (low : kernelTo entry ≤ 0xFFFFF000)
    (order : kernelFrom sampleImage entry < kernelTo entry) (passed : mapChecks (userRegion entry) = true) :
    ∃ first final, initFrames sampleImage first ⟨mbFlagMmap, [entry]⟩ = .ok ([userRegion entry], final) ∧
      ShowsMap (mapMachine (userRegion entry)) [userRegion entry] := by
  obtain ⟨early, first, started, found⟩ := sample_boots
  obtain ⟨userMap, final, completed⟩ := one_region_boots entry started found accepted available sound low order
  have noted := completed
  obtain ⟨_, _, noted⟩ := Trap.bind_eq_ok.mp noted
  have isMap := entries_map [entry] noted
  rw [List.nil_append, List.filter_cons, if_pos (decide_eq_true available)] at isMap
  subst isMap
  exact ⟨first, final, completed, map_machine_shows passed⟩

theorem user_frame_valid_half_memory : ∃ first final userMap,
    initFrames sampleImage first ⟨mbFlagMmap, [halfMemory]⟩ = .ok (userMap, final) ∧
    ShowsMap (mapMachine (userRegion halfMemory)) userMap ∧
    (ValidatesFrame (mapMachine (userRegion halfMemory)) userMap 0x1A60123 ↔
      ¬ PartialFrame userMap 0x1A60123 ∧ ¬ LostFrame userMap 0x1A60123) := by
  have sound : SoundMap [halfMemory] := one_entry_sound (by decide) (by decide)
  obtain ⟨first, final, completed, shown⟩ := one_region_shown halfMemory (by decide) (by decide) sound
    (by decide) (by decide) (by decide +kernel)
  exact ⟨first, final, _, completed, shown,
    user_frame_valid_iff sound.words sound.fits completed shown (by decide)⟩

/-- With 256 MiB the first address of the user's region is in the middle of a frame. -/
theorem user_frame_valid_partial : ¬ ∀ (image : Image) (machine next : Machine) (info : MultibootInfo)
    (userMap : List PhysicalMap) (running : Machine) (paddr : Nat),
    (∀ entry ∈ info.mmap, entry.baseAddrLo < 4294967296) →
      (∀ entry ∈ info.mmap, entry.baseAddrLo + entry.lengthLo ≤ 4294967296) →
        initFrames image machine info = .ok (userMap, next) → ShowsMap running userMap →
          paddr < 4294967296 → ValidatesFrame running userMap paddr := by
  intro always
  have sound : SoundMap [upperMemory] := one_entry_sound (by decide) (by decide)
  obtain ⟨first, final, completed, shown⟩ := one_region_shown upperMemory (by decide) (by decide) sound
    (by decide) (by decide) (by decide +kernel)
  have right := always _ _ _ _ _ _ 0x33F9999 sound.words sound.fits completed shown (by decide)
  rw [validates_iff sound.words sound.fits completed shown (by decide)] at right
  obtain ⟨isAddr, isEnd⟩ := @user_region_bounds upperMemory (by decide) (by decide)
  have isTo : kernelTo upperMemory = 0x33F9999 := by decide
  have isTop : upperMemory.baseAddrLo + upperMemory.lengthLo = 0xFFE0000 := by decide
  apply accepted_whole right
  refine ⟨⟨_, List.mem_cons_self, ?_⟩, List.forall_mem_singleton.2 fun _ => ?_⟩
  · unfold Contains ReachesTop
    omega
  · unfold CutsPage
    omega

end Sample
end ParadiseOS.UserFrames
