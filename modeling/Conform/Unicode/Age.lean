import Conform.Unicode.Ranges

/-! The versions of Unicode, and the version in which a character came. -/

namespace Conform.Unicode

def versions : List String :=
  ["1.1", "2.0", "2.1", "3.0", "3.1", "3.2", "4.0", "4.1", "5.0", "5.1", "5.2", "6.0", "6.1", "6.2",
    "6.3", "7.0", "8.0", "9.0", "10.0", "11.0", "12.0", "12.1", "13.0", "14.0", "15.0", "15.1",
    "16.0", "17.0"]

/-- A version is named by its numbers, with a dot between them or behind a `v`. -/
def version? (name : String) : Option Nat :=
  versions.findIdx? fun version =>
    name == version || name.toList == 'v' :: version.toList.filter (· != '.')

def ageOfCode (code : Char) : Option Nat :=
  if code.isUpper then some (code.toNat - 'A'.toNat)
  else if code = 'z' then none
  else some (26 + (code.toNat - 'a'.toNat))

/-- `A` to `Z`, `a` and `b` are the versions, `z` is no version. -/
def ageText : String :=
  "A502D4A30D8FGD18G3H11I14A89D5G2A47DA10D5G17A70D9FG8H5G3A2DF13J4A2J2z2AI3APz4A7zAzA20zA44JA7DF2A
   DADADADA18E2FG5H4DA12DA66DA12DA41JD2F2D4A53F2A2F2A2F2IA28D2A8H2A2I6F16I4J16K2L2P8zA38z2A7TA39TA
   Dz2P2MzB17HB13A10IA9BH3z8A27z4TA5z11G4MPJ5HAG9J5AOXHALA26J5A19D3G3H6LA14F2A72D2A5DA15DA30G2A10D
   5GD14zD30G3D27z2G3H30J18D49Fz14I59z2T3K46z2K15zL28z2LzS11z5X31bX2z5aX8MPM11P6Q2XR8W10X11TR15QM2
   7PKA3GA53L2A18KLA5KL2A25J2L5PK2I2HI2PA3zA8z2A2z2A22zA7zAz3A4z2AGA7z2A2z2A3Hz8Az4A2zA5z2A21KS2Tz
   2GAGzA6z4A2z2A22zA7zA2zA2zA2z2AzA5z4A2z2A3z3Jz7A4zAz7A15JTz10A3zA7GAzA3zA22zA7zA2zA5z2A10zA3zA3
   z2Az15AG3z2A10MGz7QS6zA3zA8z2A2z2A22zA7zA2zGA4z2A8Jz2A2z2A3z7WA2z4A2zA3J2z2A11GL6z10A2zA6z3A3zA
   4z3A2zAzA2z3A2z3A3z3A8HA3z4A5z3A3zA4z2Jz6Az14HA12G8z5PA3TA8zA3zA23zA10PA5z2XJA7zA3zA4z7A2zJ2Qzb
   Xz2A2J2z2A10z7UJ8RPA2TA8zA3zA23zA10zA5z2G2A7zA3zA4z7A2z5bXAzA2I2z2A10zI2Yz12SPA2WA8zA3zA23LA16L
   S2JA6JzA3zA4LRz4R3AR7QA2J2z2A10J6R3J7zWD2zD18z3D24zD9zDz2D7z3Dz4D6zDzD8z6P10z2D3z12A58z4A29z37A
   2zAzUA2UAzUAU6A4UA7UA3zAzAU2A2UA13UA3z2A5zAzA6YzA10z2A2M2z32B72zB33DJ2z4B27L4B6DBzB21D3B7DBD3zD
   15zJDH2J3K4L2z37D34JD5JD2JD7J3D4J6D26J64K4J2A38zMz5Mz2A39F2H2AHM3A90K5A68K5A82K6D7HD63HDzD4z2D7
   zDzD4z2D39HDzD4z2D31HDzD4z2D7zDzD4z2D7HD7zD23HD31HDzD4z2D7HD39HD19z2L2H2D28z3H26z6D85Qz2Q6z2KD6
   30K9D29z3D81P8z7F13XF7Xz9XF23z9F20z12F13zF3zF2z12D93Gz2D10z6G10z6D15XD10z6D88Tz7D42Jz5K70z10G29
   P2zG12z4G12z4Gz3G42z2G5z11H42K2z4H26z6H10Kz3H2G32H28z2H2K63zK29z2K11z6K10z6K14z2P15W2X14b15z2b1
   2z20I76Xza2I45X2aJ43M3J12M6L52z8L4J56z3J15z3J51R9a2z5T43z2T3M8z8K35M4SP2Uz5G108H88I7J28P15S4XRL
   KI2A155BJ4A90J6A22z2A6z2A38z2A6z2A8zAzAzAzA31z2A53zA15zA14z2A6zA19z2A3zA9zA47DA23FD6F5G2H2FH7F5
   JzO4A7Fz2A27zH5L8z3A11BCD3F2H4K3LNP3QSXbz14A18D2F7HI4Jz15A57D2GHF15HI2JK3A48DIJ4KQ2z4A91D9F12A2
   42F14ADA121DFD30F52G2H11I12KL11P7R4SA37D2a3z22A11z21A139F20GA150F10A80D8F8A20G2F2HDA86D2F12H2F1
   0G8H11JK2G2H16IJ10K3J4K10LK19LKL4K24PA4LA4L2A28LA35LALA4L3AKA7L2A7F14A31L3A24LA14LH7I4MJML2F28J
   4F16D256F512G14H6I7J5I4J41P3J5K5P26z2P32bWP34T3P12UP8ST25Q4T15UH47XH47XI13J3KJ3I4J6K2H107K7M2z5
   H45zMz5Mz2H54M2z7HLz14LH23z9H7zH7zH7zH7zH7zH7zH7zH7zJ32H24J4H2J19KM10P7R2S5T5UW3X11z34D26zD89z1
   2D214z26D12Z4A56D3F3DAzA84F2z2A6F2A94Fz5A40JSTzA94zA16D24L3W5H16J20a2z9ZF16A29G2zA36K12GF15A28G
   2HA50F15A12G4A47VA119G4A99G2A31GD6582W10G64A20902H22J8K8MQ9S21T5W13X3D1165z3D18F2D16FD12FD3FDz9
   K48J300z20J32L2J18M8J28P6QMK88z8H23I4J5I2J107L2QL2M2P12L10MP3RTP2Q6T2U6X2U5W4a3b2X2bXbX5a3z20bX
   3W2PM2LJ5H44Wz3K10z6I56z8J69Rz8J12z6K28Q2T2J84z11JK29z3K78zK11z4K2P31zJ55z9J14z2J10z2J4K28P4K67
   z24K5M23z10L6z2L6z2L6z9L7zL7zP48Q4P2U2W4z4Q80K46z2K10z6B11172z12K23z4K49z2052A6702M2F59K3z2H106
   z38A7z12A5z5DA25zA5zAzA2zA2zA108L16Xb16A365X16A64b2A54b7XE32A12FGX2F16H10z6A4J3P7Q2A21F2G2A10zA
   19zA4z4A3FAzA135z2AzA94F2A94z3A6z2A6z2A6z2A3z3A7zA7z10D3CA3G12zG26zG19zG2zG15z2G14z34G123z5G3z4
   G45z3G9H75P2R2zJ12Wz3Pz47J46z130J29z3J49z15P28z4E31PE4z9S3E27z5P43z5G30zGH36z4H14z42E38G2E38G80
   z2G10z6R36z4R36z4P40z8P52z11PX11zX15zX7zX2zX11zX15zX7zX2z3a52z12P311z9P22z10P8z24X6zX42zX9z69G6
   z2GzG44zG2z3Gz2GK22zK9P63z8P9z48Q19zQ2z5Q5I26K2z3IJ26z5Jb26z38M56z4Q2M2Q16z2Q46H4zH2z5H8zH3zH27
   T2z2H3z4H9Tz7H9z7K32P32z32P39z4P12z9K54z3K29z2K27z5K8P18z7P4z12P7z80K73z55Q51z13Q51z7Q6T40z8T10
   z6a38z3a29z8a2z208K31zW42zW3z2W2z16a3b3z8b9z33b2aY3T40z8T42z22X26z38W28z20U23z9L78z4L30X6z9PK66
   Xz10Tz2M25z7M10z6M53zM14T3Wz8P39z9M73Q4PW2M10PQ5zP20z11P18zP43RY3z62Q7zQzQ4zQ15zQ11z6P59z5P10z6
   QP3zP8z2P2z2P22zP7zP2zP5zTP9z2P2z2P3z2Qz6Pz5P7z2P7z3P5z11a10zaz2aza38za10zaz2aza4za10za2z8a2z29
   R90WRzRTUW2z30P72z8P10z166P54z2P18Q20z34P69z11P10z6R13z19M56UXz6M10z6a20z28Q26Tz2Q15z4Q16X7z185
   T60z100P83z12PW7z2Wz2W8zW2zW30zW2z2W12z9W10z70U8z2U46z2U11z27S72z8S52U2S23TS5z13X16P57z7Y10z86b
   8z88a34z14a10z6R9zR45zR14z10R29z3R32z2R22zR14z73S7zS2zS44z3SzS2zS9z8S10z6T6zT2zT37zT2zT6z7T10z6
   b44z4b10z246T25z7Y17zY41z3Y28az85Wz15U50z13UI879P42Qz102I99P12zI4Pz11Q196z2636X99z13K1071YU9Y29
   z10a3995z5Q583z6841a58z1734L569z7P31zP10z4P2X79zX10z6P30z2P6z10P70z10P10zP7zP21z5P19z432a58z198
   T91z5b25z2b25z44M69U6z4UM47U9z7M17z64RSU2Wz11W2b5z9R6125T5U6b8R755W483z41aW9b22z97b115z8701X4zX
   7zX2zL2S285X4z15Yz29U3z2Yz14U4z8S396z2308P107z5P13z3P9z7P10z2P8z3932a250b3z3a436z6b23z15b17z15X
   46z2X23z9X116z60E246z10E39z2JE180Q11X2z21H70z122Y20z12T20z12G87z9I18T7z135E85zE71zE2z2Ez2E2z2E4
   zE12zEzE4GE2zE65zE4z2E8zE7zE28zE4zE5zEz3E7zE338H2z2E290I2z2E50Q652z15Q5zQ15z1104X31z6Y6z213R7zR
   17z2R7zR2zR5z5Y62z33Yz112U45z3U14z2U10z4U2z320X31z17U58z5Uz464Y42z214a43z4az192b31zb22z8b2z224X
   7zX4zX2zX15zP197z2P16z41R75Uz4R10z4R2z785T68z76U61z194M4zM27zM2zMz2MzM10zM4zMzMz6Mz4MzMzMzM3zM2
   zMz2MzMzMzMzMzM2zMz2M4zM7zM4zM4zMzM10zM17z5M3zM5zM17z52M2z270J44z4J100z12L15z2L14PzL15zL15P22z1
   0K11P2W3K31TLKL11KLKL2KL3KL3K5L8KL7KL10M2UW3L9KLK2L2KL10K4L2KL10R18Wz56L26KL2z13K34L9Rz4K9z7L2z
   14S6z154L33P12Q3L6PL70PQ2L20P12L37PL5P4Q5P12L17P7Q8L63PLPL182PL4P2QL62P2M4P7Q5L24P18RP41RP86L5M
   L16ML3MLMLMLML3ML6M2L4MLM2L4ML12P2Q2L11P48L70P10QR2S2UW2bz3YX3P13z3P4R3S2TUW2z3L116Y3b4Y5P85T4Y
   z6U12z4Xz15P12z4P56z8P10z6P40z8P30z2W2a10z4a2z14b9z39S12WU3Q9R6SR8S8RS2R12UR12ST3R15S13T5UWT4W2
   XTUT4Q5R13S6T11W2U6W3U2T10U6QT2U8WXU3S23T25U84b4z8T14z2U4WY3U3X2z3U3W4Y2abz3baU6W19X4Y3W7X4Y3aY
   W3X3azbz4bY2W7X3Y2az2aX8Yabz4bX7Y2z7W147zW55a37W10bz1027B2E42711W7X2z32K4149X4Yb6L222z2Q5762b12
   z2S7473z15Z622z2466E542z1504B2W4939z5Y4192b4298z52100B2z65534B2z65534B2z65534B2z65534B2z65534B2
   z65534B2z65534B2z65534B2z65534B2z65534B2zEz30E96z128G240z65038B131074"

def ageRuns : Array (Nat × Option Nat) := runsOfText ageOfCode ageText

def age? (c : Char) : Option Nat := (lastAtMost? ageRuns c.toNat).bind Prod.snd

end Conform.Unicode
