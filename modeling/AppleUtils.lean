import AppleUtils.Usbmux.Delivery
import AppleUtils.Usbmux.PacketSize
import AppleUtils.Usbmux.WriteAccounting
import AppleUtils.Usbmux.OrderlyClose
import AppleUtils.Apfs.RoundTrip
import AppleUtils.Apfs.CompressedFork
import AppleUtils.Apfs.CatalogWalk
import AppleUtils.Apfs.Resolve
import AppleUtils.Apfs.Rings
import AppleUtils.Apfs.Mount
import AppleUtils.Apfs.Insert
import AppleUtils.Apfs.CheckpointRun
import AppleUtils.Codec.LzvnFormat
import AppleUtils.Fat32.FatSize
import AppleUtils.Ipsw.Confined
import AppleUtils.Ipsw.Intact
import AppleUtils.Ramrod.BootNonce
import AppleUtils.Ramrod.Cpio
import AppleUtils.Usbmux.BeginOpen
import AppleUtils.Bridge.Frames
import AppleUtils.Usbmux.PeerWindow
import AppleUtils.Usbmux.Sequencing
import AppleUtils.Usbmux.ReceiveWindow
import AppleUtils.Ramrod.Election
import AppleUtils.Image.OwnWrites
import AppleUtils.Restore.BundleSwitch
import AppleUtils.Omap.Preflight
import AppleUtils.Apfs.StreamSpans
import AppleUtils.RestorePatch.Relocate
