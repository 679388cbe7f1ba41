import Flingd.App.ApplicationManager
import Flingd.Platform.PlatformPal

/-! `Platform.cpp`: an application is launched or stopped through the platform. -/
namespace Flingd.Platform
open App

/-- `boost::ierase_first`. -/
def ieraseFirst (word : Bytes) : Bytes → Bytes
  | [] => []
  | c :: s =>
    if iequals ((c :: s).take word.length) word then (c :: s).drop word.length
    else c :: ieraseFirst word s

/-- The URL of an application is what `GetString` gives of the member `url`. -/
def parseAppInfo (url : Bytes) : Bytes := cStr url

namespace PlatformPal
variable (write : Json Bytes → Bytes)

/-- `url` is the string in the application's information. -/
def launchApplication (p : PlatformPal) (url : Bytes) : Bool × PlatformPal :=
  let url := parseAppInfo url
  if isWebApp url then (true, p.onLaunchWebApp write url)
  else if isNativeApp url then
    (true, p.onLaunchNativeApp write (ieraseFirst (str "app:?") url))
  else (false, p)

def stopApplication (p : PlatformPal) (url : Bytes) : PlatformPal :=
  let url := parseAppInfo url
  if isWebApp url then p.onStopWebApp write url
  else if isNativeApp url then p.onStopNativeApp write (ieraseFirst (str "app:?") url)
  else p

end PlatformPal
end Flingd.Platform
