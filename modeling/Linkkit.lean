import Linkkit.Framework.Buf
import Linkkit.Framework.Int
import Linkkit.Framework.Words
import Linkkit.Framework.Numeral
import Linkkit.Framework.Search
import Linkkit.Framework.Scan
import Linkkit.Framework.Inet
import Linkkit.Framework.Fields
import Linkkit.Framework.Loop
import Linkkit.Framework.Absorb
import Linkkit.Framework.Blocks
import Linkkit.Framework.Machine
import Linkkit.Framework.Table
import Linkkit.Framework.Puts
import Linkkit.Framework.Descriptors
import Linkkit.Framework.Shell
import Linkkit.Impl.Kv
import Linkkit.Impl.Kv.Threads
import Linkkit.Impl.Sha256
import Linkkit.Impl.Sign
import Linkkit.Impl.MqttSign
import Linkkit.Impl.GoSign
import Linkkit.Impl.Net
import Linkkit.Impl.Awss
import Linkkit.Impl.Wait
import Linkkit.Impl.Timer
import Linkkit.Impl.Semaphore
import Linkkit.Impl.Mutex
import Linkkit.Impl.Thread
import Linkkit.Impl.Ap
import Linkkit.Impl.Supplicant
import Linkkit.Impl.Wifi
import Linkkit.Impl.Udp
import Linkkit.Impl.Ifaddr
import Linkkit.Impl.Solo
import Linkkit.Impl.Example
import Linkkit.Spec.Hmac
import Linkkit.Spec.Kv
import Linkkit.Spec.Kv.Threads
import Linkkit.Spec.Kv.Rows
import Linkkit.Spec.Sha256
import Linkkit.Spec.Sha256.Update
import Linkkit.Spec.Sign
import Linkkit.Spec.Net
import Linkkit.Spec.Net.Session
import Linkkit.Spec.Awss
import Linkkit.Spec.Wait
import Linkkit.Spec.Timer
import Linkkit.Spec.Semaphore
import Linkkit.Spec.Mutex
import Linkkit.Spec.Thread
import Linkkit.Spec.MqttSign
import Linkkit.Spec.Login
import Linkkit.Spec.Ap
import Linkkit.Spec.Supplicant
import Linkkit.Spec.Wifi
import Linkkit.Spec.Udp
import Linkkit.Spec.Udp.Link
import Linkkit.Spec.Ifaddr
import Linkkit.Spec.Solo
import Linkkit.Spec.Example
import Linkkit.Proof.Kv.Item
import Linkkit.Proof.Kv.Jabsco
import Linkkit.Proof.Kv.Slots
import Linkkit.Proof.Kv.Failures
import Linkkit.Proof.Kv.Rows
import Linkkit.Proof.Kv.History
import Linkkit.Proof.Kv.Open
import Linkkit.Proof.Kv.Refine
import Linkkit.Proof.Kv.Steps
import Linkkit.Proof.Kv.Again
import Linkkit.Proof.Kv.Ubuntu
import Linkkit.Proof.Kv.Parties
import Linkkit.Proof.Kv.Alone
import Linkkit.Proof.Kv.Threads
import Linkkit.Proof.Kv.Mutex
import Linkkit.Proof.Sha256.Process
import Linkkit.Proof.Sha256.Hmac
import Linkkit.Proof.Sha256.Update
import Linkkit.Proof.Sha256.Words
import Linkkit.Proof.Sign
import Linkkit.Proof.Sign.Password
import Linkkit.Proof.SignText
import Linkkit.Proof.Net.Descriptors
import Linkkit.Proof.Net.Stream
import Linkkit.Proof.Net.Truthful
import Linkkit.Proof.Net.Session
import Linkkit.Proof.Awss.Frames
import Linkkit.Proof.Awss
import Linkkit.Proof.Wait
import Linkkit.Proof.Timer
import Linkkit.Proof.Semaphore
import Linkkit.Proof.Mutex
import Linkkit.Proof.Thread
import Linkkit.Proof.MqttSign
import Linkkit.Proof.Login
import Linkkit.Proof.Ap
import Linkkit.Proof.Supplicant
import Linkkit.Proof.Wifi
import Linkkit.Proof.Udp.Sockets
import Linkkit.Proof.Udp.Peers
import Linkkit.Proof.Udp.Datagrams
import Linkkit.Proof.Udp.Link
import Linkkit.Proof.Ifaddr
import Linkkit.Proof.Solo
import Linkkit.Proof.Example
